import LanguageServer.Json.Mismatch
import LanguageServer.Taken

/-! # Failures of reading JSON text

A reader that fails says what is wrong, which bytes it has not read, and how its place is counted
from there. Line and column are worked out at the end, from the whole text: the column is the number
of bytes between the start of the line and the place. -/

namespace LanguageServer.Json

/-- What is wrong with a text. -/
inductive Fault
  | endInValue
  | endInString
  | endInList
  | endInObject
  | expectedValue
  | expectedIdent
  | expectedColon
  | expectedListEnd
  | expectedObjectEnd
  | keyNotString
  | trailingComma
  | trailingCharacters
  | invalidNumber
  | numberOutOfRange
  | invalidEscape
  | loneSurrogate
  | endOfHexEscape
  | controlCharacter
  | invalidCodePoint
  | nestedTooDeeply
  | mismatch (cause : Mismatch)

/-- The wording of a fault. -/
def Fault.message : Fault → String
  | endInValue => "EOF while parsing a value"
  | endInString => "EOF while parsing a string"
  | endInList => "EOF while parsing a list"
  | endInObject => "EOF while parsing an object"
  | expectedValue => "expected value"
  | expectedIdent => "expected ident"
  | expectedColon => "expected `:`"
  | expectedListEnd => "expected `,` or `]`"
  | expectedObjectEnd => "expected `,` or `\x7d`"
  | keyNotString => "key must be a string"
  | trailingComma => "trailing comma"
  | trailingCharacters => "trailing characters"
  | invalidNumber => "invalid number"
  | numberOutOfRange => "number out of range"
  | invalidEscape => "invalid escape"
  | loneSurrogate => "lone leading surrogate in hex escape"
  | endOfHexEscape => "unexpected end of hex escape"
  | controlCharacter => "control character (\\u0000-\\u001F) found while parsing a string"
  | invalidCodePoint => "invalid unicode code point"
  | nestedTooDeeply => "recursion limit exceeded"
  | mismatch cause => cause.message

/-- How the place of a failure is counted from the unread bytes: just before the first of them; just
after it, or at the end; a number of bytes back; or as the enclosing record decides. -/
inductive Place
  | here
  | next
  | back (count : Nat)
  | undecided
  deriving DecidableEq, Repr

/-- What is wrong, the bytes not read, and how the place is counted from there. -/
structure Failure where
  fault : Fault
  unread : List UInt8
  place : Place

/-- What reading off the front of at most `bound` bytes gives. -/
abbrev Scan (α : Type) (bound : Nat) := Except Failure (Taken UInt8 α bound)

/-- A reader of bytes. -/
abbrev Reader (α : Type) := (bs : List UInt8) → Scan α bs.length

/-- Fails at the first unread byte. -/
def failHere {α : Type} (fault : Fault) (unread : List UInt8) : Except Failure α :=
  .error ⟨fault, unread, .here⟩

/-- Fails after the first unread byte. -/
def failNext {α : Type} (fault : Fault) (unread : List UInt8) : Except Failure α :=
  .error ⟨fault, unread, .next⟩

/-- The byte of an ASCII character. -/
def byte (c : Char) : UInt8 := c.toNat.toUInt8

/-- Whether the byte is white space between the parts of a text. -/
def isSpace (b : UInt8) : Bool := b == 0x20 || b == 0x0A || b == 0x09 || b == 0x0D

/-- The bytes after the white space at the front. -/
def skipSpace (bs : List UInt8) : List UInt8 := bs.dropWhile isSpace

theorem length_skipSpace_le (bs : List UInt8) : (skipSpace bs).length ≤ bs.length :=
  (List.dropWhile_suffix isSpace).length_le

theorem skipSpace_le {bs : List UInt8} {bound : Nat} (h : bs.length ≤ bound) :
    (skipSpace bs).length ≤ bound := Nat.le_trans (length_skipSpace_le bs) h

/-! ### Lines and columns -/

/-- A fault of a text, its line, counted from one, and the number of bytes before its place on that
line. -/
structure DecodeError where
  fault : Fault
  line : Nat
  column : Nat

/-- The fault's wording, then the place. -/
def DecodeError.message (e : DecodeError) : String :=
  e.fault.message ++ " at line " ++ toString e.line ++ " column " ++ toString e.column

/-- The number of bytes before the place of a failure in a text of `total` bytes. -/
def Failure.index (f : Failure) (total : Nat) : Nat :=
  let read := total - f.unread.length
  match f.place with
  | .here | .undecided => read
  | .next => min total (read + 1)
  | .back count => read - count

/-- The failure with its line and column in the text. -/
def Failure.locate (f : Failure) (text : List UInt8) : DecodeError :=
  let before := text.take (f.index text.length)
  ⟨f.fault, before.count 0x0A + 1, (before.reverse.takeWhile (· != 0x0A)).length⟩

end LanguageServer.Json
