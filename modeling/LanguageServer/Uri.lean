import LanguageServer.Text.Hex
import LanguageServer.Text.Utf8

/-! # URI references

Whether a text is a URI reference by RFC 3986: an optional scheme, an optional authority, a path, a
query and a fragment. The text is read from the left, and a fault names the byte where it shows. An
IP literal is an IPv6 address; what is wrong inside it shows at its opening bracket. -/

namespace LanguageServer.Uri

/-- Why a text is no URI reference, with the index of the byte where it shows. -/
inductive Fault
  | unexpectedCharacter (index : Nat)
  | invalidOctet (index : Nat)
  | invalidIpLiteral (index : Nat)
  deriving DecidableEq, Repr

/-- The wording of a fault. -/
def Fault.message : Fault → String
  | unexpectedCharacter index => "unexpected character at index " ++ toString index
  | invalidOctet index => "invalid percent-encoded octet at index " ++ toString index
  | invalidIpLiteral index => "invalid IP literal at index " ++ toString index

/-! ### Characters -/

/-- The byte as an ASCII character, NUL for other bytes. -/
def ascii (b : UInt8) : Char := if b < 0x80 then Char.ofNat b.toNat else '\x00'

/-- Whether the byte is a decimal digit. -/
def isDigit (b : UInt8) : Bool := (ascii b).isDigit

/-- The value of a hexadecimal digit. -/
def hexValue? (b : UInt8) : Option Nat := Text.hexValue? (ascii b)

/-- Characters of a scheme. -/
def inScheme (b : UInt8) : Bool := (ascii b).isAlphanum || "+-.".contains (ascii b)

/-- Characters that never divide the parts of a URI, and those that may divide parts of a part. -/
def isPlain (b : UInt8) : Bool :=
  (ascii b).isAlphanum || "-._~!$&'()*+,;=".contains (ascii b)

/-- Characters of an authority without an IP literal, up to the host. -/
def inAuthority (b : UInt8) : Bool := isPlain b || ascii b == ':'

/-- Characters of the first segment of a path without a scheme. -/
def inFirstSegment (b : UInt8) : Bool := isPlain b || ascii b == '@'

/-- Characters of a path. -/
def inPath (b : UInt8) : Bool := isPlain b || ":@/".contains (ascii b)

/-- Characters of a query and of a fragment. -/
def inQuery (b : UInt8) : Bool := inPath b || ":@/?".contains (ascii b)

/-! ### Reading -/

/-- What is left of a text, and the index where it starts. -/
structure Cursor where
  index : Nat
  rest : List UInt8

namespace Cursor

/-- The first byte left, as a character. -/
def next? (c : Cursor) : Option Char := c.rest.head?.map ascii

/-- The cursor after `n` more bytes. -/
def advance (c : Cursor) (n : Nat) : Cursor := ⟨c.index + n, c.rest.drop n⟩

/-- The cursor after the allowed bytes, without escapes. -/
def skip (allowed : UInt8 → Bool) (c : Cursor) : Cursor :=
  c.advance (c.rest.takeWhile allowed).length

/-- The cursor after a character, if it comes next. -/
def after? (mark : Char) (c : Cursor) : Option Cursor :=
  if c.next? = some mark then some (c.advance 1) else none

end Cursor

/-- The cursor after the allowed bytes and the escaped octets, `%` and two hexadecimal digits. -/
def scanFrom (allowed : UInt8 → Bool) (index : Nat) (bs : List UInt8) : Except Fault Cursor :=
  match bs with
  | [] => .ok ⟨index, []⟩
  | b :: rest =>
    if ascii b = '%' then
      match rest with
      | high :: low :: rest =>
        if (hexValue? high).isSome && (hexValue? low).isSome then
          scanFrom allowed (index + 3) rest
        else .error (.invalidOctet index)
      | _ => .error (.invalidOctet index)
    else if allowed b then scanFrom allowed (index + 1) rest
    else .ok ⟨index, b :: rest⟩

/-- The cursor after the allowed bytes and the escaped octets. -/
def scan (allowed : UInt8 → Bool) (c : Cursor) : Except Fault Cursor :=
  scanFrom allowed c.index c.rest

/-! ### IP literals -/

/-- A number from 0 to 255 without leading zeros, and the bytes after it. -/
def octet? (bs : List UInt8) : Option (List UInt8) :=
  let digits := (bs.take 3).takeWhile isDigit
  match digits with
  | [] => none
  | d :: more =>
    if ascii d = '0' then some (bs.drop 1)
    else
      let n := (d :: more).foldl (fun n b => n * 10 + (b.toNat - 0x30)) 0
      if n ≤ 255 then some (bs.drop digits.length) else none

/-- Four numbers divided by points, of which `left` follow a point, and the bytes after them. -/
def ipv4? (left : Nat) (bs : List UInt8) : Option (List UInt8) :=
  match octet? bs, left with
  | none, _ => none
  | some rest, 0 => some rest
  | some (b :: rest), left + 1 => if ascii b = '.' then ipv4? left rest else none
  | some [], _ + 1 => none

/-- Groups of an IPv6 address: `count` are read, and `gap` is the number before the double colon.
The bytes after the groups, if they are those of an address. -/
def groups? (left count : Nat) (gap : Option Nat) (bs : List UInt8) : Option (List UInt8) :=
  let complete (count : Nat) (bs : List UInt8) : Option (List UInt8) :=
    if gap.isSome = decide (count < 8) then some bs else none
  match left with
  | 0 => complete count bs
  | left + 1 =>
    let colon := bs.head?.map ascii = some ':'
    let body := if colon then bs.drop 1 else bs
    let digits := (body.take 4).takeWhile fun b => (hexValue? b).isSome
    if digits.isEmpty then
      if !colon then complete count bs
      else if body.head?.map ascii = some ':' ∧ gap = none then
        groups? left count (some count) (body.drop 1)
      else none
    else if digits.length < 4 ∧ (body.drop digits.length).head?.map ascii = some '.' then
      if 6 < count ∨ colon = (gap = some count) then none
      else (ipv4? 3 body).bind (complete (count + 2))
    else if colon = (count = 0 ∨ gap = some count) then none
    else if count = 7 then complete 8 (body.drop digits.length)
    else groups? left (count + 1) gap (body.drop digits.length)

/-- The cursor after an IP literal, which starts at a bracket. -/
def ipLiteral (c : Cursor) : Except Fault Cursor :=
  let inside := c.rest.drop 1
  match groups? 9 0 none inside with
  | some (b :: rest) =>
    if ascii b = ']' then .ok (c.advance (c.rest.length - rest.length))
    else .error (.invalidIpLiteral c.index)
  | _ => .error (.invalidIpLiteral c.index)

/-! ### The parts -/

/-- The cursor after a port, if there is one. -/
def port (c : Cursor) : Cursor :=
  match c.after? ':' with
  | some c => c.skip isDigit
  | none => c

/-- Whether what was scanned is a host and possibly a port; `start` is its index. -/
def checkHost (start : Nat) (scanned : List UInt8) : Except Fault Unit :=
  let host := scanned.takeWhile fun b => ascii b != ':'
  let colons := scanned.countP fun b => ascii b == ':'
  if colons = 0 then .ok ()
  else if colons = 1 then
    let digits := (scanned.reverse.takeWhile isDigit).length
    if host.length + 1 + digits = scanned.length then .ok ()
    else .error (.unexpectedCharacter (start + scanned.length - digits - 1))
  else .error (.unexpectedCharacter (start + host.length))

/-- The cursor after an authority. -/
def authority (c : Cursor) : Except Fault Cursor := do
  let scanned ← scan inAuthority c
  match scanned.after? '@' with
  | some host =>
    if host.next? = some '[' then return port (← ipLiteral host)
    else return port (← scan isPlain host)
  | none =>
    if scanned.index = c.index then
      if c.next? = some '[' then return port (← ipLiteral c) else return c
    else
      checkHost c.index (c.rest.take (scanned.index - c.index))
      return scanned

/-- Query and fragment, and nothing after them. -/
def afterPath (c : Cursor) : Except Fault Unit := do
  let c ← match c.after? '?' with
    | some c => scan inQuery c
    | none => pure c
  let c ← match c.after? '#' with
    | some c => scan inQuery c
    | none => pure c
  if c.rest.isEmpty then return () else .error (.unexpectedCharacter c.index)

/-- Authority and path, after the two slashes. -/
def fromAuthority (c : Cursor) : Except Fault Unit := do
  let start ← authority c
  let path ← scan inPath start
  if start.index < path.index ∧ start.next? ≠ some '/' then
    .error (.unexpectedCharacter start.index)
  else afterPath path

/-- The path and what follows it. -/
def fromPath (c : Cursor) : Except Fault Unit := do afterPath (← scan inPath c)

/-- The cursor after two slashes, if they come next. -/
def afterSlashes? (c : Cursor) : Option Cursor := (c.after? '/').bind (·.after? '/')

/-- **Whether a text is a URI reference.** -/
def check (text : String) : Except Fault Unit :=
  let start : Cursor := ⟨0, Text.Utf8.ofString text⟩
  let scheme := start.skip inScheme
  match scheme.after? ':' with
  | some rest =>
    if (start.next?.map Char.isAlpha).getD false then
      match afterSlashes? rest with
      | some rest => fromAuthority rest
      | none => fromPath rest
    else .error (.unexpectedCharacter 0)
  | none =>
    match if scheme.index = 0 then afterSlashes? start else none with
    | some rest => fromAuthority rest
    | none => do
      let segment ← scan inFirstSegment scheme
      if segment.next? = some ':' then .error (.unexpectedCharacter segment.index)
      else fromPath segment

end LanguageServer.Uri
