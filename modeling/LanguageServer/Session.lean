import LanguageServer.Frame.Write
import LanguageServer.Handler

/-! # Sessions

A session is the state of the methods and the sink that replies go to. `handleMessage` decodes one
message, has it answered and writes the reply; a message without an identifier gets none. `serve`
reads the messages of a stream one after the other, until it ends, an exit is requested or the
framing breaks. -/

namespace LanguageServer

open Script (Syntactic)

/-- Why a message was not served. That a reply cannot be encoded is no case: it is made of strings,
integers and JSON values with strings for keys, and `Response.encode` has a text for all of
these. -/
inductive ServerError
  | framing (cause : FramingError)
  | decode (cause : Json.DecodeError)
  | handler (method : String) (cause : ResponseError)

namespace ServerError

/-- The wording of an error. -/
def message : ServerError → String
  | framing cause => cause.message
  | decode cause => "could not decode message: " ++ cause.message
  | handler method cause => "could not handle message " ++ method ++ ": " ++ cause.text

/-- Whether the connection cannot go on. -/
def isFatal : ServerError → Bool
  | framing _ => true
  | decode _ | handler _ _ => false

end ServerError

/-- The state of a session: that of the methods, and where replies go. -/
structure Session where
  handler : Handler
  sink : Frame.Sink

namespace Session

/-- A session at its start. -/
def fresh (sink : Frame.Sink) : Session := ⟨.fresh, sink⟩

/-- Logs that a message came in or went out. -/
def logMessage (direction method : String) : Logged Unit :=
  Logged.log .session .debug "LSP message" [("direction", direction), ("method", method)]
    ["data", "pid"]

/-- Logs that the serving of a stream begins. -/
def start : Logged Unit := Logged.log .session .info "Server loop started"

/-- Writes a reply. -/
def send (s : Session) (response : Response) : Logged (Session × Except ServerError Unit) := do
  let body := Text.Utf8.ofString response.encode
  logMessage "outgoing" "response"
  match s.sink.write body with
  | (sink, .error e) => return ({ s with sink }, .error (.framing e))
  | (sink, .ok ()) =>
    Logged.log .framing .trace
      ("MessageStream: Wrote message (" ++ toString body.length ++ " bytes)")
    return ({ s with sink }, .ok ())

/-- Writes a reply about an error, then reports the error. -/
def sendError (s : Session) (response : Response) (e : ServerError) :
    Logged (Session × Except ServerError Unit) := do
  let (s, sent) ← s.send response
  return (s, sent.bind fun _ => .error e)

section Language

variable {α : Type} [Syntactic α] (language : Language α)

/-- **Serves one message.** -/
def handleMessage (s : Session) (body : List UInt8) :
    Logged (Session × Except ServerError Unit) :=
  match Request.decode body with
  | .error e => s.sendError (.parseError (Request.salvageId body) e.message) (.decode e)
  | .ok request => do
    logMessage (if request.isNotification then "incoming notification" else "incoming request")
      request.method
    let (handler, answer) ← s.handler.handle language request.method request.params
    Logged.log .session .debug "Performance timing" [("operation", request.method)]
      ["duration_ms", "pid"]
    let s := { s with handler }
    match answer, request.id with
    | .error e, some id => s.sendError (.failure (some id) e) (.handler request.method e)
    | .error e, none => return (s, .error (.handler request.method e))
    | .ok (some result), some id => s.send (.success (some id) result)
    | .ok _, _ =>
      Logged.log .session .debug ("No reply for " ++ request.method)
      return (s, .ok ())

/-- Serves one message of a stream, and says how the serving ends if it does with this message. -/
def serveOne (s : Session) (body : List UInt8) :
    Logged (Session × Option (Except FramingError Unit)) := do
  Logged.log .framing .trace
    ("MessageStream: Read message (" ++ toString body.length ++ " bytes)")
  let (s, result) ← s.handleMessage language body
  match result with
  | .error (.framing e) =>
    Logged.log .session .error ("Fatal error while serving connection: " ++ e.message)
    return (s, some (.error e))
  | result =>
    match result with
    | .error e => Logged.log .session .warn ("Failed to process message: " ++ e.message)
    | .ok () => pure ()
    if s.handler.signal.isArmed then
      Logged.log .session .info "Exit requested, stopping server loop"
      return (s, some (.ok ()))
    else return (s, none)

/-- Serves the messages of a stream; `failure` is what it reports when it breaks off. -/
def serveFrom (failure : Option String) (s : Session) (bs : List UInt8) :
    Logged (Session × Except FramingError Unit) :=
  match bs, failure with
  | [], some reason => pure (s, .error (.read (.reported reason)))
  | [], none => do
    Logged.log .framing .trace "MessageStream: end of stream"
    Logged.log .session .info "Input stream closed, stopping server loop"
    return (s, .ok ())
  | b :: bs, failure =>
    match Frame.message failure b bs with
    | .error e => pure (s, .error e)
    | .ok t => do
      let (s, ending) ← s.serveOne language t.value
      match ending with
      | some result => return (s, result)
      | none => serveFrom failure s t.rest
termination_by bs.length
decreasing_by exact Nat.lt_succ_of_le t.le_bound

/-- **Serves a whole stream.** -/
def serve (failure : Option String) (s : Session) (bs : List UInt8) :
    Logged (Session × Except FramingError Unit) := do
  start
  s.serveFrom language failure bs

end Language

end Session

end LanguageServer
