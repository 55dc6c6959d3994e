import LanguageServer.Proofs.Message.Envelope
import LanguageServer.Proofs.Session.Signal
import LanguageServer.Proofs.Session.Writing

/-! # Which messages reach the methods

A message reaches the methods only if its body is the envelope of a request. Any other body is
refused: the methods are not called, their state stays, and one reply about the error is written.

Whether the methods are called is seen in the log, since the first thing they do is to log what they
are asked for.

* `CallsHandler`: a call in the log;
* `Refuses`: a body is refused;
* `handleMessage_cases`: either of the two;
* `handleMessage_gated`: what is called, and what is refused. -/

namespace LanguageServer

/-- The methods are called on the way. -/
def CallsHandler {β : Type} (x : Logged β) : Prop := ∃ e ∈ x.events, e.source = .handler

namespace Session

theorem send_uncalled (s : Session) (r : Response) : ¬ CallsHandler (s.send r) := by
  rintro ⟨e, he, hsource⟩
  have hall : ∀ e ∈ (s.send r).events, e.source ≠ .handler := by
    simp only [send, logMessage, Logged.log, Logged.events_bind, List.forall_mem_append,
      List.forall_mem_singleton]
    refine ⟨by decide, ?_⟩
    split
    · simp
    · simp
  exact hall e he hsource

theorem send_session (s : Session) (r : Response) :
    (s.send r).value.1 = ⟨s.handler, (s.sink.put (some r)).1⟩ := by
  cases hput : s.sink.put (some r) with
  | mk sink result =>
    have hwrite : s.sink.write (Text.Utf8.ofString r.encode) = (sink, result) := hput
    simp only [send, Logged.value_bind, hwrite]
    cases result <;> rfl

theorem sendError_session (s : Session) (r : Response) (cause : ServerError) :
    (s.sendError r cause).value.1 = ⟨s.handler, (s.sink.put (some r)).1⟩ := send_session s r

theorem sendError_uncalled (s : Session) (r : Response) (cause : ServerError) :
    ¬ CallsHandler (s.sendError r cause) := by
  have hevents : (s.sendError r cause).events = (s.send r).events := List.append_nil _
  unfold CallsHandler
  rw [hevents]
  exact send_uncalled s r

theorem settle_handler (s : Session) (request : Request) (answer : Handler.Answer) :
    (s.settle request answer).value.1.handler = s.handler := by
  unfold settle
  split
  · rw [sendError_session]
  · rfl
  · rw [send_session]
  · rfl

section Language

variable {α : Type} [Script.Syntactic α] (language : Language α)

/-- The session refuses the body: it does not call the methods, their state stays, and an error is
all that it writes. -/
structure Refuses (s : Session) (body : List UInt8) : Prop where
  uncalled : ¬ CallsHandler (s.handleMessage language body)
  handler : (s.handleMessage language body).value.1.handler = s.handler
  reply : ∃ reason, ∃ r : Response,
    r = .failure (Request.salvageId body) { code := -32700, message := reason } ∧
      (s.handleMessage language body).value.1.sink = (s.sink.put (some r)).1 ∧
      (s.Lossless →
        (s.handleMessage language body).value.1.sink.stored = s.sink.stored ++ frame r)

theorem handle_calls (h : Handler) (method : String) (params : Json) :
    CallsHandler (h.handle language method params) :=
  ⟨⟨.handler, .debug, "Received request: " ++ method, [], []⟩,
    List.mem_append_left _ (List.mem_singleton_self _), rfl⟩

theorem handleMessage_calls (s : Session) {body : List UInt8} {request : Request}
    (hbody : Request.decode body = .ok request) :
    CallsHandler (s.handleMessage language body) ∧
      (s.handleMessage language body).value.1.handler =
        (s.handler.handle language request.method request.params).value.1 := by
  constructor
  · obtain ⟨e, he, hsource⟩ := handle_calls language s.handler request.method request.params
    refine ⟨e, ?_, hsource⟩
    unfold handleMessage
    rw [hbody]
    simp only [Logged.events_bind, List.mem_append]
    exact .inr (.inl he)
  · obtain ⟨before, hmessage⟩ := handleMessage_of_decode language hbody
      (show (s.handler.handle language request.method request.params).value = (_, _) from rfl)
    rw [show s.handleMessage language body = _ from hmessage s.sink]
    exact settle_handler _ request _

theorem refuses_of_decode (s : Session) {body : List UInt8} {e : Json.DecodeError}
    (hbody : Request.decode body = .error e) : Refuses language s body := by
  have hmessage : s.handleMessage language body =
      s.sendError (.parseError (Request.salvageId body) e.message) (.decode e) := by
    unfold handleMessage
    rw [hbody]
  have hnext := sendError_session s (.parseError (Request.salvageId body) e.message) (.decode e)
  rw [← hmessage] at hnext
  refine ⟨?_, by rw [hnext], e.message, _, rfl, by rw [hnext]; rfl, fun hs => ?_⟩
  · rw [hmessage]
    exact sendError_uncalled s _ _
  · rw [hnext, hs.eq_holding]
    simp only [holding, Frame.Sink.put_unlimited, Option.toList_some, List.flatMap_singleton]
    rfl

/-- **A message is either an envelope,** and then the methods are called as it says, **or refused.** -/
theorem handleMessage_cases (s : Session) (body : List UInt8) :
    (CallsHandler (s.handleMessage language body) ∧
        ∃ tree request, Json.Spells body tree ∧ Request.Envelope tree request ∧
          (s.handleMessage language body).value.1.handler =
            (s.handler.handle language request.method request.params).value.1) ∨
      Refuses language s body := by
  cases hbody : Request.decode body with
  | error e => exact .inr (refuses_of_decode language s hbody)
  | ok request =>
    obtain ⟨hcalls, hhandler⟩ := handleMessage_calls language s hbody
    obtain ⟨tree, hspells, henvelope⟩ := Request.decode_sound hbody
    exact .inl ⟨hcalls, tree, request, hspells, henvelope, hhandler⟩

/-- **Only envelopes reach the methods.** If the methods are called, the body is a JSON text of the
envelope of a request, and the state is what they make of that request. If they are not called the
body is refused, as is every body that is no envelope: the state stays, and exactly one reply is
written, an error of the code for messages that cannot be read. -/
theorem handleMessage_gated (s : Session) (body : List UInt8) :
    (CallsHandler (s.handleMessage language body) →
      ∃ tree request, Json.Spells body tree ∧ Request.Envelope tree request ∧
        (s.handleMessage language body).value.1.handler =
          (s.handler.handle language request.method request.params).value.1) ∧
    (¬ CallsHandler (s.handleMessage language body) → Refuses language s body) ∧
    ((∀ tree request, Json.Spells body tree → ¬ Request.Envelope tree request) →
      Refuses language s body) := by
  rcases handleMessage_cases language s body with ⟨hcalls, henvelope⟩ | hrefuses
  · refine ⟨fun _ => henvelope, fun hnot => absurd hcalls hnot, fun hnone => ?_⟩
    obtain ⟨tree, request, hspells, h, -⟩ := henvelope
    exact absurd h (hnone tree request hspells)
  · exact ⟨fun hcalls => absurd hcalls hrefuses.uncalled, fun _ => hrefuses, fun _ => hrefuses⟩

end Language

/-- An object that asks to exit. -/
def exitObject : List UInt8 := Text.Utf8.ofString "\x7b\"method\":\"exit\"\x7d"

/-- An object that asks for nothing. -/
def emptyObject : List UInt8 := Text.Utf8.ofString "\x7b\x7d"

theorem not_envelope_emptyObject (tree : Json.Tree) (request : Request)
    (h : Json.Spells emptyObject tree) : ¬ Request.Envelope tree request := by
  obtain ⟨rest, hvalue, -⟩ := h
  obtain ⟨ms, rfl, hlisted⟩ := Json.Value.of_brace
    (show Json.Value tree (Json.byte '\x7b' :: [Json.byte '\x7d']) rest from hvalue)
  intro henvelope
  cases henvelope with
  | object hkeys hsays =>
    cases hlisted with
    | none =>
      obtain ⟨_, hvalues, -⟩ := hsays.method
      cases hvalues
    | some hitem =>
      obtain ⟨⟨gap, -, hgap⟩, -, -, -⟩ := hitem
      have hquote : Json.byte '"' ∈ [Json.byte '\x7d'] := by
        rw [hgap]
        exact List.mem_append_right gap List.mem_cons_self
      exact absurd hquote (by decide)

theorem handleMessage_gated_exit :
    let s := fresh .unlimited
    (CallsHandler (s.handleMessage .builtin exitObject) ∧
      ∃ tree request, Json.Spells exitObject tree ∧ Request.Envelope tree request ∧
        (s.handleMessage .builtin exitObject).value.1.handler =
          (s.handler.handle .builtin request.method request.params).value.1) ∧
    (∀ tree request, Json.Spells emptyObject tree → ¬ Request.Envelope tree request) ∧
      Refuses .builtin s emptyObject := by
  have hcalls : CallsHandler ((fresh .unlimited).handleMessage .builtin exitObject) := by
    unfold CallsHandler
    decide +kernel
  exact ⟨⟨hcalls, (handleMessage_gated .builtin _ exitObject).1 hcalls⟩, not_envelope_emptyObject,
    (handleMessage_gated .builtin _ emptyObject).2.2 not_envelope_emptyObject⟩

/-- An array that asks to exit. -/
def exitArray : List UInt8 := Text.Utf8.ofString "[\"2.0\",\"exit\"]"

/-- An object of another version that asks to exit. -/
def exitVersioned : List UInt8 :=
  Text.Utf8.ofString "\x7b\"jsonrpc\":\"1.0\",\"method\":\"exit\"\x7d"

/-- An object that asks to exit, with a further member that is no text. -/
def exitBytes : List UInt8 :=
  Text.Utf8.ofString "\x7b\"method\":\"exit\",\"\":\"" ++ [0xFF] ++ Text.Utf8.ofString "\"\x7d"

theorem not_spells_exitArray (ms : List (Option String × Json.Tree)) :
    ¬ Json.Spells exitArray (.object ms) := by
  rintro ⟨rest, hvalue, -⟩
  obtain ⟨b, bs, hbytes, hfront⟩ := hvalue.front_of_object
  obtain ⟨rfl, -⟩ := List.cons.inj (show Json.byte '[' :: exitArray.tail = b :: bs from hbytes)
  rcases hfront with hblank | hbrace
  · exact absurd hblank (by decide)
  · exact absurd hbrace (by decide)

/-- Neither an object, nor the version, nor a body that is text is asked for. -/
theorem handleMessage_exit_strays :
    (∀ ms, ¬ Json.Spells exitArray (.object ms)) ∧ Text.Utf8.decode? exitBytes = none ∧
      ∀ body ∈ [exitArray, exitVersioned, exitBytes],
        CallsHandler ((fresh .unlimited).handleMessage .builtin body) ∧
          ((fresh .unlimited).handleMessage .builtin body).value.1.handler.signal =
            .armed false := by
  refine ⟨not_spells_exitArray, by decide +kernel, ?_⟩
  unfold CallsHandler
  decide +kernel

end Session

end LanguageServer
