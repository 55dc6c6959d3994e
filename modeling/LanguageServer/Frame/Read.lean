import LanguageServer.Frame.Error
import LanguageServer.Taken
import LanguageServer.Text.Blank
import LanguageServer.Text.Utf8

/-! # Reading messages off a stream

A message is a block of header lines, an empty line, and a body of as many bytes as the last header
`Content-Length` says. Lines end at the line feed; white space around a header does not count, and
other headers are skipped. `read` takes one message off the front of the bytes, `readAll` all of
them up to the end or the first error. `arrival` is for bytes that come in bit by bit. -/

namespace LanguageServer.Frame

/-- The header that carries the length of the body. -/
def lengthHeader : String := "Content-Length:"

/-- Whether the byte is inside a line. -/
def inLine (b : UInt8) : Bool := b != 10

/-- A header line as text, without white space around it. -/
def headerText (line : List UInt8) : List Char := Text.trim (Text.Utf8.decodeLossy line)

/-- The length that the text of a header names. -/
def readLength (value : List Char) : Except FramingError Nat :=
  match Decimal.readInteger value with
  | .error cause => .error (.unparsableLength (String.ofList value) cause)
  | .ok n => if n < 0 then .error (.negativeLength n) else .ok n.toNat

/-- The length known after a header line: the one it carries, or the one known before. -/
def afterHeader (length : Option Nat) (header : List Char) : Except FramingError (Option Nat) :=
  let name := lengthHeader.toList
  if name.isPrefixOf header then
    (readLength (Text.trim (header.drop name.length))).map some
  else .ok length

/-- The header lines up to the empty one, after lines that gave the length `length`. A stream that
breaks off reports `failure`, or just ends. -/
def headers (failure : Option String) (length : Option Nat) {bound : Nat} (bs : List UInt8)
    (h : bs.length ≤ bound + 1) : Except FramingError (Taken UInt8 (Option Nat) bound) :=
  let header := headerText (bs.takeWhile inLine)
  match _hd : bs.dropWhile inLine with
  | _ :: rest =>
    have shorter : rest.length < bs.length := by
      have := (List.dropWhile_suffix inLine (l := bs)).length_le
      rw [_hd] at this; exact this
    if header.isEmpty then .ok ⟨length, rest, by omega⟩
    else
      match afterHeader length header with
      | .error e => .error e
      | .ok length => headers failure length rest (by omega)
  | [] =>
    match failure with
    | some reason => .error (.read (.reported reason))
    | none =>
      if bs.isEmpty then .error (.read .headerEnded)
      else if header.isEmpty then .ok ⟨length, [], Nat.zero_le _⟩
      else
        match afterHeader length header with
        | .error e => .error e
        | .ok _ => .error (.read .headerEnded)
termination_by bs.length

/-- The body of `size` bytes. -/
def body (failure : Option String) (size : Nat) {bound : Nat} (bs : List UInt8)
    (h : bs.length ≤ bound) : Except FramingError (Taken UInt8 (List UInt8) bound) :=
  let got := bs.take size
  if got.length < size then
    match failure with
    | some reason => .error (.truncated (.reported reason))
    | none => .error (.truncated (.bodyEnded size got.length))
  else .ok ⟨got, bs.drop size, by simp only [List.length_drop]; omega⟩

/-- The message at the front of the bytes `b :: bs`. -/
def message (failure : Option String) (b : UInt8) (bs : List UInt8) :
    Except FramingError (Taken UInt8 (List UInt8) bs.length) :=
  match headers failure none (b :: bs) (Nat.le_refl _) with
  | .error e => .error e
  | .ok ⟨none, _, _⟩ => .error .missingLength
  | .ok ⟨some size, rest, h⟩ =>
    if FramingError.maxBody < size then .error (.tooLarge size) else body failure size rest h

/-- **The next message:** its body and the bytes after it, or nothing at a clean end. -/
def read (failure : Option String) (bs : List UInt8) :
    Except FramingError (Option (List UInt8 × List UInt8)) :=
  match bs, failure with
  | [], some reason => .error (.read (.reported reason))
  | [], none => .ok none
  | b :: bs, failure => (message failure b bs).map fun t => some t.pair

/-- What the bytes that have come in so far hold. -/
inductive Arrival
  | message (body rest : List UInt8)
  | broken (cause : FramingError)
  | unfinished
  deriving DecidableEq, Repr

/-- The message at the front of the bytes, if it is complete whatever bytes are still to come. -/
def arrival (bs : List UInt8) : Arrival :=
  match bs with
  | [] => .unfinished
  | b :: bs =>
    match message (some "") b bs with
    | .ok t => .message t.value t.rest
    | .error (.read (.reported _)) | .error (.truncated (.reported _)) => .unfinished
    | .error e => .broken e

/-- All messages, after the bodies `done`, last first, and the error that ends them unless the end
is clean. -/
def readAllFrom (failure : Option String) (done : List (List UInt8)) (bs : List UInt8) :
    List (List UInt8) × Option FramingError :=
  match bs, failure with
  | [], some reason => (done.reverse, some (.read (.reported reason)))
  | [], none => (done.reverse, none)
  | b :: bs, failure =>
    match message failure b bs with
    | .error e => (done.reverse, some e)
    | .ok t => readAllFrom failure (t.value :: done) t.rest
termination_by bs.length
decreasing_by exact Nat.lt_succ_of_le t.le_bound

/-- All messages of a stream and the error that ends them, unless the end is clean. -/
def readAll (failure : Option String) (bs : List UInt8) :
    List (List UInt8) × Option FramingError := readAllFrom failure [] bs

end LanguageServer.Frame
