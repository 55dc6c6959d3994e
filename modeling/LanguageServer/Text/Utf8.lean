/-! # Bytes and characters

UTF-8 on lists of bytes. `decodeStep` looks at the front of a list and says either which character
stands there or that an ill-formed piece does, and in both cases how many further bytes it takes; an
ill-formed piece is as long as it could have begun a character. `decode?` refuses such pieces,
`decodeLossy` writes U+FFFD for each, and `validPrefix` counts the bytes before the first one. -/

namespace LanguageServer.Text.Utf8

/-- The bytes of a text. -/
def encode (cs : List Char) : List UInt8 := cs.flatMap String.utf8EncodeChar

/-- The bytes of a string. -/
def ofString (s : String) : List UInt8 := encode s.toList

/-- The number of bytes of a text. -/
def size (cs : List Char) : Nat := (encode cs).length

/-- A text cut after `n` bytes; absent if that place is inside a character or behind the end. -/
def cut? : Nat → List Char → Option (List Char × List Char)
  | 0, cs => some ([], cs)
  | _ + 1, [] => none
  | n + 1, c :: cs =>
    if c.utf8Size ≤ n + 1 then
      (cut? (n + 1 - c.utf8Size) cs).map fun (front, rest) => (c :: front, rest)
    else none

/-- The byte at which character `n` of a text starts; the number of bytes for characters behind the
end. -/
def offset : Nat → List Char → Nat
  | 0, _ => 0
  | _ + 1, [] => 0
  | n + 1, c :: cs => c.utf8Size + offset n cs

/-- The text with the bytes from `start` up to `stop` replaced by those of `new`; absent unless the
two places are in order, in the text and not inside a character. -/
def replace? (start stop : Nat) (new cs : List Char) : Option (List Char) := do
  let (front, behind) ← cut? start cs
  if stop < start then none
  let (_, rest) ← cut? (stop - start) behind
  some (front ++ new ++ rest)

/-- The text between the bytes `start` and `stop`; absent unless the two places are in order, in the
text and not inside a character. -/
def slice? (start stop : Nat) (cs : List Char) : Option (List Char) := do
  let (_, behind) ← cut? start cs
  if stop < start then none
  let (inside, _) ← cut? (stop - start) behind
  some inside

/-- Whether `b` is within `[lo, hi]`. -/
def between (lo hi b : UInt8) : Bool := lo ≤ b && b ≤ hi

/-- The six low bits of a byte that continues a character. -/
def payload (b : UInt8) : Nat := b.toNat % 0x40

/-- The range of the second byte of a character whose first byte is `b`, and how many bytes follow
the first; none if no character starts with `b`. -/
def lead? (b : UInt8) : Option (Nat × UInt8 × UInt8) :=
  if between 0xC2 0xDF b then some (1, 0x80, 0xBF)
  else if b = 0xE0 then some (2, 0xA0, 0xBF)
  else if b = 0xED then some (2, 0x80, 0x9F)
  else if between 0xE1 0xEF b then some (2, 0x80, 0xBF)
  else if b = 0xF0 then some (3, 0x90, 0xBF)
  else if b = 0xF4 then some (3, 0x80, 0x8F)
  else if between 0xF1 0xF3 b then some (3, 0x80, 0xBF)
  else none

/-- The rest of a character: `owed` bytes after those that gave `code`, the next of them in
`[lo, hi]`, after `used` bytes. -/
def decodeTail (owed : Nat) (lo hi : UInt8) (code used : Nat) (bs : List UInt8) :
    Option Char × Nat :=
  match owed, bs with
  | 0, _ => (some (Char.ofNat code), used)
  | owed + 1, b :: bs =>
    if between lo hi b then decodeTail owed 0x80 0xBF (code * 0x40 + payload b) (used + 1) bs
    else (none, used)
  | _ + 1, [] => (none, used)

/-- The character at the front of `b :: bs`, none if the front is ill-formed, and how many bytes of
`bs` it takes. -/
def decodeStep (b : UInt8) (bs : List UInt8) : Option Char × Nat :=
  if b < 0x80 then (some (Char.ofNat b.toNat), 0)
  else
    match lead? b with
    | none => (none, 0)
    | some (owed, lo, hi) =>
      let code := b.toNat % (if owed = 1 then 0x20 else if owed = 2 then 0x10 else 0x08)
      decodeTail owed lo hi code 0 bs

/-- The characters that the bytes spell, after `read`, last first; none if a piece is ill-formed. -/
def decodeFrom? (read : List Char) : List UInt8 → Option (List Char)
  | [] => some read.reverse
  | b :: bs =>
    match decodeStep b bs with
    | (some c, more) => decodeFrom? (c :: read) (bs.drop more)
    | (none, _) => none
termination_by bs => bs.length
decreasing_by simp only [List.length_drop, List.length_cons]; omega

/-- The text that the bytes spell, none if they are not UTF-8. -/
def decode? (bs : List UInt8) : Option String := (decodeFrom? [] bs).map String.ofList

/-- The characters that the bytes spell, after `read`, last first, with U+FFFD for each ill-formed
piece. -/
def lossyFrom (read : List Char) : List UInt8 → List Char
  | [] => read.reverse
  | b :: bs =>
    match decodeStep b bs with
    | (c, more) => lossyFrom (c.getD '\uFFFD' :: read) (bs.drop more)
termination_by bs => bs.length
decreasing_by simp only [List.length_drop, List.length_cons]; omega

/-- The characters that the bytes spell, with U+FFFD for each ill-formed piece. -/
def decodeLossy (bs : List UInt8) : List Char := lossyFrom [] bs

/-- The number of bytes before the first ill-formed piece, after `count` bytes. -/
def validFrom (count : Nat) : List UInt8 → Nat
  | [] => count
  | b :: bs =>
    match decodeStep b bs with
    | (some _, more) => validFrom (count + 1 + more) (bs.drop more)
    | (none, _) => count
termination_by bs => bs.length
decreasing_by simp only [List.length_drop, List.length_cons]; omega

/-- The number of bytes before the first ill-formed piece. -/
def validPrefix (bs : List UInt8) : Nat := validFrom 0 bs

end LanguageServer.Text.Utf8
