import LanguageServer.Proofs.Session.Reply

/-! # What messages do to the exit signal

Of all methods only two touch the request to shut down and the exit signal. So of a message only the
name of its method counts: after any list of messages the signal is idle until the first that asks
to exit, and then it records for good whether one that asks to shut down came before.

* `Handler.handle_flags`, `Exchange.flags`: one call of a method, and one message;
* `Session.Lossless`: the sink never fails, before and after every message;
* `handleAll_without_exit`, `handleAll_exit`, `handleAll_armed`: the messages before the first that
  asks to exit, that one, and those after it. -/

namespace LanguageServer

/-- Whether the body decodes as a message that asks for the given method. -/
def Request.asks (method : String) (body : List UInt8) : Bool :=
  match Request.decode body with
  | .ok request => request.method == method
  | .error _ => false

section Language

variable {α : Type} [Script.Syntactic α] (language : Language α)

namespace Handler

/-- **Only two methods touch the signal and the request to shut down.** -/
theorem handle_flags (h : Handler) (method : String) (params : Json) :
    (h.handle language method params).value.1.signal =
        (if method = "exit" then (h.signal.trigger h.shutdownRequested).1 else h.signal) ∧
      (h.handle language method params).value.1.shutdownRequested =
        (h.shutdownRequested || method == "shutdown") := by
  unfold handle
  simp only [Logged.value_bind]
  split
  · simp
  · simp
  · simp
  · unfold didOpen
    split <;> simp
  · unfold didChange
    split <;> simp
  · unfold didClose
    split <;> simp
  · simp
  · simp
  · simp
  · simp [shutdown]
  · simp [exit_value h]
  · next hshutdown hexit => simp_all

end Handler

/-! ### Messages -/

variable {language}

/-- Of a message only the name of its method counts. -/
theorem Exchange.flags {h next : Handler} {body : List UInt8} {reply : Option Response}
    (hexchange : Exchange language h body next reply) :
    next.signal = (if Request.asks "exit" body then (h.signal.trigger h.shutdownRequested).1
        else h.signal) ∧
      next.shutdownRequested = (h.shutdownRequested || Request.asks "shutdown" body) := by
  have hdecoded : ∀ {request : Request} {answer : Handler.Answer},
      Request.decode body = .ok request →
      (h.handle language request.method request.params).value = (next, answer) →
      next.signal = (if Request.asks "exit" body then (h.signal.trigger h.shutdownRequested).1
          else h.signal) ∧
        next.shutdownRequested = (h.shutdownRequested || Request.asks "shutdown" body) := by
    intro request answer hbody hanswer
    have hflags := Handler.handle_flags language h request.method request.params
    rw [hanswer] at hflags
    simpa [Request.asks, hbody] using hflags
  cases hexchange with
  | undecodable hbody => simp [Request.asks, hbody]
  | failed hbody _ hanswer => exact hdecoded hbody hanswer
  | succeeded hbody _ hanswer => exact hdecoded hbody hanswer
  | silent hbody _ hanswer => exact hdecoded hbody hanswer
  | notified hbody _ hanswer => exact hdecoded hbody hanswer

namespace Session

/-- The sink of the session never fails. -/
def Lossless (s : Session) : Prop := s.sink.limit = none ∧ s.sink.flushes = none

theorem lossless_fresh : Lossless (.fresh .unlimited) := ⟨rfl, rfl⟩

theorem Lossless.eq_holding {s : Session} (hs : s.Lossless) :
    s = holding s.handler s.sink.stored := by
  obtain ⟨h, stored, limit, flushes⟩ := s
  obtain ⟨rfl, rfl⟩ := hs
  rfl

variable (language)

theorem Lossless.exchange {s : Session} (hs : s.Lossless) (body : List UInt8) :
    (s.handleMessage language body).value.1.Lossless ∧
      ∃ reply, Exchange language s.handler body (s.handleMessage language body).value.1.handler
        reply := by
  obtain ⟨next, reply, hexchange, hvalue⟩ :=
    handleMessage_exchange language s.handler s.sink.stored body
  rw [← hs.eq_holding] at hvalue
  rw [hvalue]
  exact ⟨⟨rfl, rfl⟩, reply, hexchange⟩

theorem handleAll_cons (s : Session) (body : List UInt8) (bodies : List (List UInt8)) :
    handleAll language s (body :: bodies) =
      handleAll language (s.handleMessage language body).value.1 bodies := rfl

theorem handleAll_append (s : Session) (before after : List (List UInt8)) :
    handleAll language s (before ++ after) =
      handleAll language (handleAll language s before) after :=
  List.foldl_append

theorem Lossless.handleAll {s : Session} (hs : s.Lossless) (bodies : List (List UInt8)) :
    (handleAll language s bodies).Lossless := by
  induction bodies generalizing s with
  | nil => exact hs
  | cons body bodies ih => exact ih (hs.exchange language body).1

/-! ### Lists of messages -/

/-- **Before the first message that asks to exit** the signal does not change, and all that counts
is whether a message asked to shut down. -/
theorem handleAll_without_exit {s : Session} (hs : s.Lossless) {bodies : List (List UInt8)}
    (hbodies : ∀ body ∈ bodies, Request.asks "exit" body = false) :
    (Session.handleAll language s bodies).handler.signal = s.handler.signal ∧
      (Session.handleAll language s bodies).handler.shutdownRequested =
        (s.handler.shutdownRequested || bodies.any (Request.asks "shutdown")) := by
  induction bodies generalizing s with
  | nil => simp [Session.handleAll]
  | cons body bodies ih =>
    obtain ⟨hnext, reply, hexchange⟩ := hs.exchange language body
    obtain ⟨hsignal, hshutdown⟩ := hexchange.flags
    rw [hbodies body List.mem_cons_self] at hsignal
    obtain ⟨ihsignal, ihshutdown⟩ := ih hnext fun b hb => hbodies b (List.mem_cons_of_mem body hb)
    rw [handleAll_cons, ihsignal, ihshutdown, hsignal, hshutdown]
    simp [Bool.or_assoc]

/-- **An armed signal stays as it is,** whatever comes. -/
theorem handleAll_armed {s : Session} (hs : s.Lossless) {clean : Bool}
    (harmed : s.handler.signal = .armed clean) (bodies : List (List UInt8)) :
    (Session.handleAll language s bodies).handler.signal = .armed clean := by
  induction bodies generalizing s with
  | nil => exact harmed
  | cons body bodies ih =>
    obtain ⟨hnext, reply, hexchange⟩ := hs.exchange language body
    have hkept := hexchange.flags.1
    rw [harmed] at hkept
    refine ih hnext (hkept.trans ?_)
    split_ifs <;> rfl

theorem idle_of_handleAll {s : Session} (hs : s.Lossless) {bodies : List (List UInt8)}
    (hidle : (Session.handleAll language s bodies).handler.signal.isArmed = false) :
    s.handler.signal.isArmed = false := by
  cases hsignal : s.handler.signal with
  | idle => rfl
  | armed clean =>
    rw [handleAll_armed language hs hsignal bodies] at hidle
    cases hidle

theorem asks_exit_of_armed {s : Session} (hs : s.Lossless) {body : List UInt8}
    (hidle : s.handler.signal.isArmed = false)
    (harmed : (s.handleMessage language body).value.1.handler.signal.isArmed = true) :
    Request.asks "exit" body = true := by
  obtain ⟨-, reply, hexchange⟩ := hs.exchange language body
  by_contra hasks
  rw [hexchange.flags.1, if_neg hasks, hidle] at harmed
  cases harmed

/-- **The first message that asks to exit** arms the signal, cleanly if a message asked to shut down
before. -/
theorem handleAll_exit {before : List (List UInt8)} {body : List UInt8}
    (hbefore : ∀ b ∈ before, Request.asks "exit" b = false)
    (hbody : Request.asks "exit" body = true) :
    (Session.handleAll language (.fresh .unlimited) before).handler.signal = .idle ∧
      (Session.handleAll language (.fresh .unlimited) (before ++ [body])).handler.signal =
        .armed (before.any (Request.asks "shutdown")) := by
  obtain ⟨hidle, hshutdown⟩ := handleAll_without_exit language lossless_fresh hbefore
  obtain ⟨-, reply, hexchange⟩ :=
    (lossless_fresh.handleAll language before).exchange language body
  refine ⟨hidle, ?_⟩
  rw [handleAll_append]
  refine hexchange.flags.1.trans ?_
  rw [if_pos hbody, hidle, hshutdown]
  rfl

end Session

end Language

end LanguageServer
