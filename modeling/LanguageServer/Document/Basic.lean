import LanguageServer.Text.Utf8

/-! # Documents

A document is a text the client has opened, with the lengths of its lines. Offsets count characters.
A position is a line and a character in it; `indexOf` turns a position into an offset and
`positionAt` an offset into a position. `apply` makes a change: it replaces the whole text or a
range of it. -/

namespace LanguageServer

/-- A place in a document: a line and a character in it, both counted from zero. -/
structure Position where
  line : UInt32
  character : UInt32
  deriving DecidableEq, Repr

/-- The places from `start` up to `stop`. -/
structure Range where
  start : Position
  stop : Position
  deriving DecidableEq, Repr

/-- A replacement of a range, or of the whole text if there is none, by a text. -/
structure Change where
  range : Option Range
  text : String
  deriving DecidableEq, Repr

/-- Why something could not be done to a document. -/
inductive DocumentError
  | notFound
  | lineOutOfRange (line : UInt32)
  | startAfterEnd (start stop : Nat)
  | endOutOfBounds (stop length : Nat)
  deriving DecidableEq, Repr

/-- The wording of an error. -/
def DocumentError.message : DocumentError → String
  | notFound => "Document not found"
  | lineOutOfRange line => "line " ++ toString line.toNat ++ " is out of range"
  | startAfterEnd _ _ => "Start index is greater than end index"
  | endOutOfBounds _ _ => "End index is out of bounds"

/-- A text under the name that the client gave it, with its version and the lengths of its lines in
characters, without the line ends. -/
structure Document where
  uri : String
  text : String
  version : Int32
  lineLengths : List Nat
  deriving DecidableEq, Repr

namespace Document

/-- The line lengths of `c` before a text whose line lengths are given. -/
def extendLines (c : Char) (lengths : List Nat) : List Nat :=
  if c = '\n' then 0 :: lengths
  else
    match lengths with
    | [] => [1]
    | n :: rest => (n + 1) :: rest

/-- The number of characters of each line of a text. A text without a line end has one line. -/
def lineLengthsOf (cs : List Char) : List Nat := cs.foldr extendLines [0]

/-- The document with a given text. -/
def create (uri text : String) (version : Int32) : Document :=
  ⟨uri, text, version, lineLengthsOf text.toList⟩

/-- The number of lines. -/
def lineCount (d : Document) : Nat := d.lineLengths.length

/-- The number of characters on lines of the given lengths, line ends apart. -/
def total (lengths : List Nat) : Nat := lengths.foldr (· + ·) 0

/-- The number of characters. -/
def charCount (d : Document) : Nat := total d.lineLengths + d.lineLengths.length - 1

/-! ### Lines -/

/-- The line `n`, if there is one. -/
def checkLine (d : Document) (n : UInt32) : Except DocumentError Nat :=
  if n.toNat < d.lineCount then .ok n.toNat else .error (.lineOutOfRange n)

/-- The offset of the first character of a line. -/
def lineStart (d : Document) (line : Nat) : Nat := total (d.lineLengths.take line) + line

/-- The number of characters of line `n`. -/
def lineLength (d : Document) (n : UInt32) : Except DocumentError Nat :=
  (d.checkLine n).map fun line => d.lineLengths.getD line 0

/-- The characters `cs` from `start` up to `stop`. The text is kept as bytes, so the piece is cut
out between the bytes at which the two characters start. If these were not in order, or not between
characters, nothing would be cut out. -/
def slice (cs : List Char) (start stop : Nat) : List Char :=
  (Text.Utf8.slice? (Text.Utf8.offset start cs) (Text.Utf8.offset stop cs) cs).getD []

/-- The text of line `n`, without its line end. -/
def line (d : Document) (n : UInt32) : Except DocumentError String :=
  (d.checkLine n).map fun line =>
    let start := d.lineStart line
    String.ofList (slice d.text.toList start (start + d.lineLengths.getD line 0))

/-! ### Positions and offsets -/

/-- The offset of a position. The character is not compared with the length of the line. -/
def indexOf (d : Document) (p : Position) : Except DocumentError Nat :=
  (d.checkLine p.line).map fun line => d.lineStart line + p.character.toNat

/-- The place `remaining` characters after the start of line `number`, where the lines from there on
have the given lengths. -/
def positionFrom (number remaining : Nat) : List Nat → Position
  | [] => ⟨number.toUInt32, 0⟩
  | [length] => ⟨number.toUInt32, (min remaining length).toUInt32⟩
  | length :: lengths =>
    if remaining ≤ length then ⟨number.toUInt32, remaining.toUInt32⟩
    else positionFrom (number + 1) (remaining - (length + 1)) lengths

/-- The position of an offset. Offsets after the end of the text are at its end. -/
def positionAt (d : Document) (index : Nat) : Position := positionFrom 0 index d.lineLengths

/-! ### Changes -/

/-- The characters `cs` with those from `start` up to `stop` replaced by `new`. The text is kept as
bytes, so the replacement is between the bytes at which the two characters start. If these were not
in order, or not between characters, the text would stay as it is. -/
def splice (cs new : List Char) (start stop : Nat) : List Char :=
  (Text.Utf8.replace? (Text.Utf8.offset start cs) (Text.Utf8.offset stop cs) new cs).getD cs

/-- The offsets of the two ends of a range, if it is one of the document. -/
def offsets (d : Document) (range : Range) : Except DocumentError (Nat × Nat) := do
  let start ← d.indexOf range.start
  let stop ← d.indexOf range.stop
  if stop < start then .error (.startAfterEnd start stop)
  else if d.charCount < stop then .error (.endOutOfBounds stop d.charCount)
  else .ok (start, stop)

/-- The document after one change, with a new version. -/
def apply (d : Document) (change : Change) (version : Int32) : Except DocumentError Document :=
  match change.range with
  | none => .ok (create d.uri change.text version)
  | some range =>
    (d.offsets range).map fun (start, stop) =>
      create d.uri (String.ofList (splice d.text.toList change.text.toList start stop)) version

/-- The document without its text. -/
def clear (d : Document) : Document := { d with text := "", lineLengths := [0] }

end Document

end LanguageServer
