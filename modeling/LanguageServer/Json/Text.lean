import LanguageServer.Json.Failure
import LanguageServer.Text.Hex
import LanguageServer.Text.Utf8

/-! # Reading strings

The bytes of a string up to its closing quote, with the escapes resolved, and the text they spell. A
character outside the basic plane is escaped as two surrogates; a surrogate alone is refused. -/

namespace LanguageServer.Json

open LanguageServer.Text

/-- The value of a hexadecimal digit. -/
def hexValue? (b : UInt8) : Option Nat := Text.hexValue? (Char.ofNat b.toNat)

/-- Four hexadecimal digits. -/
def hexEscape {bound : Nat} (bs : List UInt8) (h : bs.length ≤ bound) : Scan Nat bound :=
  match bs, h with
  | a :: b :: c :: d :: rest, h =>
    match hexValue? a, hexValue? b, hexValue? c, hexValue? d with
    | some a, some b, some c, some d =>
      .ok ⟨((a * 16 + b) * 16 + c) * 16 + d, rest, by simp only [List.length_cons] at h; omega⟩
    | _, _, _, _ => failHere .invalidEscape rest
  | _, _ => failHere .endInString []

/-- Whether the number is a surrogate that begins a pair. -/
def isLeading (n : Nat) : Bool := 0xD800 ≤ n && n ≤ 0xDBFF

/-- Whether the number is a surrogate that ends a pair. -/
def isTrailing (n : Nat) : Bool := 0xDC00 ≤ n && n ≤ 0xDFFF

/-- The character of a pair of surrogates. -/
def pairChar (leading trailing : Nat) : Char :=
  Char.ofNat ((leading - 0xD800) * 0x400 + (trailing - 0xDC00) + 0x10000)

/-- The second half of a character that began with the surrogate `leading`. -/
def trailingEscape (leading : Nat) {bound : Nat} (bs : List UInt8) (h : bs.length ≤ bound) :
    Scan Char bound :=
  match bs, h with
  | [], _ => failHere .endInString []
  | b :: rest, h =>
    if b = byte '\\' then
      match rest, tail_le h with
      | [], _ => failHere .endInString []
      | b :: rest, h =>
        if b = byte 'u' then
          match hexEscape rest (tail_le h) with
          | .error e => .error e
          | .ok low =>
            if isTrailing low.value then .ok (low.map fun n => pairChar leading n)
            else failHere .loneSurrogate low.rest
        else failHere .endOfHexEscape rest
    else failHere .endOfHexEscape rest

/-- A character given by number, after the backslash and the `u`. -/
def numberedChar {bound : Nat} (bs : List UInt8) (h : bs.length ≤ bound) : Scan Char bound :=
  match hexEscape bs h with
  | .error e => .error e
  | .ok n =>
    if isTrailing n.value then failHere .loneSurrogate n.rest
    else if isLeading n.value then trailingEscape n.value n.rest n.le_bound
    else .ok (n.map Char.ofNat)

/-- The byte that a backslash and a letter stand for. -/
def escapeByte? (b : UInt8) : Option UInt8 :=
  if b = byte '"' then some (byte '"')
  else if b = byte '\\' then some (byte '\\')
  else if b = byte '/' then some (byte '/')
  else if b = byte 'b' then some 0x08
  else if b = byte 'f' then some 0x0C
  else if b = byte 'n' then some 0x0A
  else if b = byte 'r' then some 0x0D
  else if b = byte 't' then some 0x09
  else none

/-- The bytes of an escaped character, after the backslash. -/
def escaped {bound : Nat} (bs : List UInt8) (h : bs.length ≤ bound) : Scan (List UInt8) bound :=
  match bs, h with
  | [], _ => failHere .endInString []
  | b :: rest, h =>
    if b = byte 'u' then
      (numberedChar rest (tail_le h)).map fun c => c.map String.utf8EncodeChar
    else
      match escapeByte? b with
      | some e => .ok ⟨[e], rest, tail_le h⟩
      | none => failHere .invalidEscape rest

/-- The bytes of a string up to its closing quote, after the bytes `read`, last first. -/
def stringBytes (read : List UInt8) {bound : Nat} (bs : List UInt8) (h : bs.length ≤ bound) :
    Scan (List UInt8) bound :=
  match bs, h with
  | [], _ => failHere .endInString []
  | b :: rest, h =>
    if b = byte '"' then .ok ⟨read.reverse, rest, tail_le h⟩
    else if b = byte '\\' then
      match escaped rest (length_le_self _) with
      | .error e => .error e
      | .ok e =>
        stringBytes (e.value.reverse ++ read) e.rest
          (Nat.le_trans e.le_bound (tail_le h))
    else if b < 0x20 then failHere .controlCharacter rest
    else stringBytes (b :: read) rest (tail_le h)
termination_by bs.length
decreasing_by
  · exact Nat.lt_succ_of_le e.le_bound
  · exact Nat.lt_succ_self _

/-- A string, after its opening quote. -/
def stringText {bound : Nat} (bs : List UInt8) (h : bs.length ≤ bound) : Scan String bound :=
  match stringBytes [] bs h with
  | .error e => .error e
  | .ok raw =>
    match Utf8.decode? raw.value with
    | some s => .ok (raw.map fun _ => s)
    | none =>
      .error ⟨.invalidCodePoint, raw.rest,
        .back (raw.value.length - Utf8.validPrefix raw.value)⟩

end LanguageServer.Json
