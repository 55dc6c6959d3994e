import LanguageServer.Frame.Read

/-! # Writing messages

`encode` puts the header before a body. A `Sink` is where the bytes go: it may stop taking bytes
after a number of them, and it may fail to flush after a number of flushes. -/

namespace LanguageServer.Frame

/-- The message with the given body. -/
def encode (body : List UInt8) : List UInt8 :=
  Text.Utf8.ofString (lengthHeader ++ " " ++ toString body.length ++ "\r\n\r\n") ++ body

/-- Where messages are written: the bytes stored so far, how many it stores in all, and how often it
can still be flushed. A limit comes with what is reported beyond it; there is none if it is absent.
-/
structure Sink where
  stored : List UInt8
  limit : Option (Nat × String)
  flushes : Option (Nat × String)
  deriving DecidableEq, Repr

namespace Sink

/-- A sink that never fails. -/
def unlimited : Sink := ⟨[], none, none⟩

/-- Stores bytes, as far as there is room. -/
def store (s : Sink) (bytes : List UInt8) : Sink × Except FramingError Unit :=
  let all := s.stored ++ bytes
  match s.limit with
  | none => ({ s with stored := all }, .ok ())
  | some (room, reason) =>
    if all.length ≤ room then ({ s with stored := all }, .ok ())
    else ({ s with stored := all.take room }, .error (.write reason))

/-- Passes the stored bytes on. -/
def flush (s : Sink) : Sink × Except FramingError Unit :=
  match s.flushes with
  | none => (s, .ok ())
  | some (0, reason) => (s, .error (.write reason))
  | some (left + 1, reason) => ({ s with flushes := some (left, reason) }, .ok ())

/-- Writes a message and flushes it. -/
def write (s : Sink) (body : List UInt8) : Sink × Except FramingError Unit :=
  match s.store (encode body) with
  | (s, .ok ()) => s.flush
  | (s, .error e) => (s, .error e)

end Sink

end LanguageServer.Frame
