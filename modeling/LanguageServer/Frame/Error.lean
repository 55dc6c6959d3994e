import LanguageServer.Decimal.Integer
import LanguageServer.Text.Quoted

/-! # Errors of framing

What breaks the division of a byte stream into messages. After such an error no message boundary is
known, so the connection ends. -/

namespace LanguageServer

/-- What went wrong with the stream itself. -/
inductive StreamFault
  | headerEnded
  | bodyEnded (expected got : Nat)
  | reported (reason : String)
  deriving DecidableEq, Repr

/-- The wording of a fault of the stream. -/
def StreamFault.message : StreamFault → String
  | headerEnded => "stream ended inside the header block"
  | bodyEnded expected got =>
    "expected " ++ toString expected ++ " bytes, got " ++ toString got
  | reported reason => reason

/-- Why a stream cannot be divided into messages, or a message not be written. -/
inductive FramingError
  | read (cause : StreamFault)
  | missingLength
  | unparsableLength (value : String) (cause : Decimal.IntegerFault)
  | negativeLength (value : Int)
  | tooLarge (size : Nat)
  | truncated (cause : StreamFault)
  | write (reason : String)
  deriving DecidableEq, Repr

namespace FramingError

/-- The largest body that is read, in bytes. -/
def maxBody : Nat := 16 * 1024 * 1024

/-- The wording of an error. -/
def message : FramingError → String
  | read cause => "could not read the message: " ++ cause.message
  | missingLength => "no Content-Length header found"
  | unparsableLength _ cause => "could not parse content length: " ++ cause.message
  | negativeLength value => "invalid content length: " ++ toString value
  | tooLarge size =>
    "message too large: " ++ toString size ++ " bytes (max: " ++ toString maxBody ++ ")"
  | truncated cause => "could not read the message body: " ++ cause.message
  | write reason => "could not write message: " ++ reason

/-- The structure of a fault of the stream, spelled out for a developer. -/
def streamDetail (cause : StreamFault) : String :=
  "(Custom \x7b kind: UnexpectedEof, error: " ++ Text.quoted cause.message ++ " \x7d)"

/-- The name of a fault of reading an integer, for a developer. -/
def integerDetail : Decimal.IntegerFault → String
  | .empty => "Empty"
  | .invalidDigit => "InvalidDigit"
  | .tooLarge => "PosOverflow"
  | .tooSmall => "NegOverflow"

/-- The structure of an error, spelled out for a developer. -/
def detail : FramingError → String
  | read cause => "Read" ++ streamDetail cause
  | missingLength => "MissingContentLength"
  | unparsableLength value cause =>
    "UnparsableContentLength \x7b value: " ++ Text.quoted value ++
      ", source: ParseIntError \x7b kind: " ++ integerDetail cause ++ " \x7d \x7d"
  | negativeLength value => "InvalidContentLength(" ++ toString value ++ ")"
  | tooLarge size =>
    "MessageTooLarge \x7b size: " ++ toString size ++ ", max: " ++ toString maxBody ++ " \x7d"
  | truncated cause => "TruncatedBody" ++ streamDetail cause
  | write reason => "Write(" ++ Text.quoted reason ++ ")"

end FramingError

end LanguageServer
