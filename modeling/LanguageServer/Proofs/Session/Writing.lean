import LanguageServer.Proofs.Session.Reply

/-! # Messages and sinks that fail

A sink may stop taking bytes, or fail to flush, at any reply. What a message does to the state of
the methods does not depend on that, and as long as the reply is stored whole nothing else does
either: the session reports and logs what it would with a sink that never fails.

* `Frame.Sink.put_cases`, `Frame.Sink.FailsAt`: one reply, and the first of several that fails;
* `freed`: a run as a sink that never fails would have it;
* `handleMessage_put`: one message, with any sink;
* `serveOne_put_error`, `serveOne_put_ok`: one message of a stream. -/

namespace LanguageServer

open Session (frame)

/-! ### Sinks -/

namespace Frame.Sink

/-- The sink that holds the same bytes and never fails. -/
def free (s : Sink) : Sink := ⟨s.stored, none, none⟩

/-- The sink holds no more than it has room for. -/
def Fits (s : Sink) : Prop := ∀ room reason, s.limit = some (room, reason) → s.stored.length ≤ room

/-- Writes the reply to a message, if it gets one. -/
def put (s : Sink) : Option Response → Sink × Except FramingError Unit
  | none => (s, .ok ())
  | some r => s.write (Text.Utf8.ofString r.encode)

/-- Of replies written one after the other, the one at the given place is the first whose bytes
cannot be stored or flushed. -/
inductive FailsAt : Sink → List (Option Response) → Nat → Prop
  | here {s next : Sink} {reply : Option Response} {replies : List (Option Response)}
    {e : FramingError} (hput : s.put reply = (next, .error e)) : FailsAt s (reply :: replies) 0
  | later {s next : Sink} {reply : Option Response} {replies : List (Option Response)} {k : Nat}
    (hput : s.put reply = (next, .ok ())) (hrest : FailsAt next replies k) :
    FailsAt s (reply :: replies) (k + 1)

theorem store_cases {s : Sink} (hs : s.Fits) (bytes : List UInt8) :
    (∃ next, s.store bytes = (next, .ok ()) ∧ next.stored = s.stored ++ bytes ∧ next.Fits) ∨
      ∃ next reason, s.store bytes = (next, .error (.write reason)) ∧
        next.stored <+: s.stored ++ bytes := by
  obtain ⟨stored, limit, flushes⟩ := s
  cases limit with
  | none => exact Or.inl ⟨_, rfl, rfl, fun _ _ h => by cases h⟩
  | some limit =>
    obtain ⟨room, reason⟩ := limit
    by_cases hroom : (stored ++ bytes).length ≤ room
    · refine Or.inl ⟨_, if_pos hroom, rfl, fun _ _ h => ?_⟩
      cases h
      exact hroom
    · exact Or.inr ⟨_, reason, if_neg hroom, List.take_prefix room _⟩

theorem flush_cases (s : Sink) :
    (∃ next, s.flush = (next, .ok ()) ∧ next.stored = s.stored ∧ next.limit = s.limit) ∨
      ∃ reason, s.flush = (s, .error (.write reason)) := by
  obtain ⟨stored, limit, flushes⟩ := s
  cases flushes with
  | none => exact Or.inl ⟨_, rfl, rfl, rfl⟩
  | some flushes =>
    obtain ⟨left, reason⟩ := flushes
    cases left with
    | zero => exact Or.inr ⟨reason, rfl⟩
    | succ left => exact Or.inl ⟨_, rfl, rfl, rfl⟩

/-- **A reply is stored whole, or the sink fails** and holds a prefix of it. -/
theorem put_cases {s : Sink} (hs : s.Fits) (reply : Option Response) :
    (∃ next, s.put reply = (next, .ok ()) ∧
        next.stored = s.stored ++ reply.toList.flatMap frame ∧ next.Fits) ∨
      ∃ next reason, s.put reply = (next, .error (.write reason)) ∧
        next.stored <+: s.stored ++ reply.toList.flatMap frame := by
  cases reply with
  | none => exact Or.inl ⟨s, rfl, (List.append_nil _).symm, hs⟩
  | some r =>
    rw [Option.toList_some, List.flatMap_singleton, frame]
    simp only [put, write]
    rcases store_cases hs (encode (Text.Utf8.ofString r.encode)) with
      ⟨next, hstore, hstored, hfits⟩ | ⟨next, reason, hstore, hprefix⟩
    · rw [hstore]
      rcases flush_cases next with ⟨last, hflush, hsame, hlimit⟩ | ⟨reason, hflush⟩
      · refine Or.inl ⟨last, hflush, hsame.trans hstored, fun room reason h => ?_⟩
        rw [hsame]
        exact hfits room reason (hlimit ▸ h)
      · exact Or.inr ⟨next, reason, hflush, hstored ▸ List.prefix_rfl⟩
    · rw [hstore]
      exact Or.inr ⟨next, reason, rfl, hprefix⟩

theorem put_unlimited (stored : List UInt8) (reply : Option Response) :
    (⟨stored, none, none⟩ : Sink).put reply =
      (⟨stored ++ reply.toList.flatMap frame, none, none⟩, .ok ()) := by
  cases reply with
  | none => simp [put]
  | some r =>
    rw [Option.toList_some, List.flatMap_singleton]
    rfl

theorem put_ok {s next : Sink} (hs : s.Fits) {reply : Option Response}
    (hput : s.put reply = (next, .ok ())) :
    next.stored = s.stored ++ reply.toList.flatMap frame ∧ next.Fits := by
  rcases put_cases hs reply with ⟨_, hkept, hnext⟩ | ⟨_, _, hcut, -⟩
  · rw [hput] at hkept
    cases hkept
    exact hnext
  · rw [hput] at hcut
    cases hcut

theorem put_error {s next : Sink} (hs : s.Fits) {reply : Option Response} {e : FramingError}
    (hput : s.put reply = (next, .error e)) :
    (∃ reason, e = .write reason) ∧ next.stored <+: s.stored ++ reply.toList.flatMap frame := by
  rcases put_cases hs reply with ⟨_, hkept, -⟩ | ⟨_, reason, hcut, hprefix⟩
  · rw [hput] at hkept
    cases hkept
  · rw [hput] at hcut
    cases hcut
    exact ⟨⟨reason, rfl⟩, hprefix⟩

-- Two messages get a reply, and only one of the two can be flushed.
example (r : Response) :
    (⟨[], none, some (1, "closed")⟩ : Sink).FailsAt [some r, none, some r] 2 :=
  .later rfl (.later rfl (.here rfl))

end Frame.Sink

namespace Session

/-- The session whose sink never fails. -/
def free (s : Session) : Session := ⟨s.handler, s.sink.free⟩

/-- The run with the same result and the same events whose sink never fails. -/
def freed {β : Type} (x : Logged (Session × β)) : Logged (Session × β) :=
  ⟨(x.value.1.free, x.value.2), x.events⟩

theorem freed_bind {β γ : Type} {x y : Logged (Session × β)}
    {f g : Session × β → Logged (Session × γ)} (hx : y = freed x)
    (hf : g y.value = freed (f x.value)) : (y >>= g) = freed (x >>= f) := by
  subst hx
  show Logged.mk _ _ = Logged.mk _ _
  rw [hf]
  rfl

theorem freed_log {β : Type} {x y : Logged (Session × β)} (h : y = freed x) (log : Logged Unit) :
    (log >>= fun _ => y) = freed (log >>= fun _ => x) := by
  rw [h]
  rfl

/-! ### One message -/

section Send

variable {s : Session} {r : Response} {sink : Frame.Sink}

theorem send_cut {e : FramingError} (hput : s.sink.put (some r) = (sink, .error e)) :
    (s.send r).value = (⟨s.handler, sink⟩, .error (.framing e)) := by
  have hwrite : s.sink.write (Text.Utf8.ofString r.encode) = (sink, .error e) := hput
  simp only [send, Logged.value_bind, hwrite]
  rfl

theorem send_kept (hs : s.sink.Fits) (hput : s.sink.put (some r) = (sink, .ok ())) :
    (s.send r).value = (⟨s.handler, sink⟩, .ok ()) ∧ s.free.send r = freed (s.send r) := by
  have hwrite : s.sink.write (Text.Utf8.ofString r.encode) = (sink, .ok ()) := hput
  have hstored := (Frame.Sink.put_ok hs hput).1
  have hfree : s.free.sink.write (Text.Utf8.ofString r.encode) = (sink.free, .ok ()) := by
    rw [Frame.Sink.free, hstored, Option.toList_some, List.flatMap_singleton]
    rfl
  simp only [send, hwrite, hfree]
  exact ⟨rfl, rfl⟩

theorem sendError_cut {cause : ServerError} {e : FramingError}
    (hput : s.sink.put (some r) = (sink, .error e)) :
    (s.sendError r cause).value = (⟨s.handler, sink⟩, .error (.framing e)) := by
  simp only [sendError, Logged.value_bind, send_cut hput]
  rfl

theorem sendError_kept (hs : s.sink.Fits) (cause : ServerError)
    (hput : s.sink.put (some r) = (sink, .ok ())) :
    (s.sendError r cause).value = (⟨s.handler, sink⟩, .error cause) ∧
      s.free.sendError r cause = freed (s.sendError r cause) := by
  obtain ⟨hvalue, hfree⟩ := send_kept hs hput
  refine ⟨?_, freed_bind hfree ?_⟩
  · simp only [sendError, Logged.value_bind, hvalue]
    rfl
  · rw [hfree]
    rfl

/-- What is done with the answer of a method. -/
def settle (s : Session) (request : Request) (answer : Handler.Answer) :
    Logged (Session × Except ServerError Unit) :=
  match answer, request.id with
  | .error e, some id => s.sendError (.failure (some id) e) (.handler request.method e)
  | .error e, none => pure (s, .error (.handler request.method e))
  | .ok (some result), some id => s.send (.success (some id) result)
  | .ok _, _ => do
    Logged.log .session .debug ("No reply for " ++ request.method)
    return (s, .ok ())

/-- The reply that a message with the given identifier gets to an answer. -/
def replyTo : Option RequestId → Handler.Answer → Option Response
  | some id, .error e => some (.failure (some id) e)
  | some id, .ok (some result) => some (.success (some id) result)
  | _, _ => none

theorem settle_cut {request : Request} {answer : Handler.Answer} {e : FramingError}
    (hput : s.sink.put (replyTo request.id answer) = (sink, .error e)) :
    (s.settle request answer).value = (⟨s.handler, sink⟩, .error (.framing e)) := by
  unfold settle
  cases hid : request.id with
  | none => rw [hid] at hput; cases hput
  | some id =>
    rw [hid] at hput
    cases answer with
    | error cause => exact sendError_cut hput
    | ok result =>
      cases result with
      | none => cases hput
      | some v => exact send_cut hput

theorem settle_kept {request : Request} {answer : Handler.Answer} (hs : s.sink.Fits)
    (hput : s.sink.put (replyTo request.id answer) = (sink, .ok ())) :
    s.free.settle request answer = freed (s.settle request answer) ∧
      ∃ result, (s.settle request answer).value = (⟨s.handler, sink⟩, result) ∧
        ∀ e, result ≠ .error (.framing e) := by
  unfold settle
  cases hid : request.id with
  | none =>
    rw [hid] at hput
    cases hput
    cases answer with
    | error cause => exact ⟨rfl, _, rfl, fun e h => by cases h⟩
    | ok result => cases result <;> exact ⟨rfl, _, rfl, fun e h => by cases h⟩
  | some id =>
    rw [hid] at hput
    cases answer with
    | error cause =>
      obtain ⟨hvalue, hfree⟩ := sendError_kept hs (.handler request.method cause) hput
      exact ⟨hfree, _, hvalue, fun e h => by cases h⟩
    | ok result =>
      cases result with
      | none =>
        cases hput
        exact ⟨rfl, _, rfl, fun e h => by cases h⟩
      | some v =>
        obtain ⟨hvalue, hfree⟩ := send_kept hs hput
        exact ⟨hfree, _, hvalue, fun e h => by cases h⟩

end Send

section Language

variable {α : Type} [Script.Syntactic α] (language : Language α)

theorem handleMessage_of_decode {h next : Handler} {body : List UInt8} {request : Request}
    {answer : Handler.Answer} (hbody : Request.decode body = .ok request)
    (hanswer : (h.handle language request.method request.params).value = (next, answer)) :
    ∃ before, ∀ sink, (⟨h, sink⟩ : Session).handleMessage language body =
      ⟨(settle ⟨next, sink⟩ request answer).value,
        before ++ (settle ⟨next, sink⟩ request answer).events⟩ := by
  refine ⟨(logMessage (if request.isNotification then "incoming notification"
      else "incoming request") request.method).events ++
    ((h.handle language request.method request.params).events ++
      (Logged.log .session .debug "Performance timing" [("operation", request.method)]
        ["duration_ms", "pid"]).events), fun sink => ?_⟩
  unfold handleMessage
  rw [hbody]
  show Logged.mk _ _ = Logged.mk _ _
  simp only [Logged.value_bind, Logged.events_bind, hanswer, List.append_assoc]
  rfl

theorem exchange_of_answer {h next : Handler} {body : List UInt8} {request : Request}
    {answer : Handler.Answer} (hbody : Request.decode body = .ok request)
    (hanswer : (h.handle language request.method request.params).value = (next, answer)) :
    Exchange language h body next (replyTo request.id answer) := by
  cases hid : request.id with
  | none => exact .notified hbody hid hanswer
  | some id =>
    cases answer with
    | error cause => exact .failed hbody hid hanswer
    | ok result =>
      cases result with
      | none => exact .silent hbody hid hanswer
      | some v => exact .succeeded hbody hid hanswer

/-- **One message, with any sink,** is an exchange. If its reply cannot be written, that is what the
message reports. If it can, all is as with a sink that never fails. -/
theorem handleMessage_put {s : Session} (hs : s.sink.Fits) (body : List UInt8) :
    ∃ next reply, Exchange language s.handler body next reply ∧
      (∀ sink e, s.sink.put reply = (sink, .error e) →
        (s.handleMessage language body).value = (⟨next, sink⟩, .error (.framing e))) ∧
      ∀ sink, s.sink.put reply = (sink, .ok ()) →
        s.free.handleMessage language body = freed (s.handleMessage language body) ∧
        ∃ result, (s.handleMessage language body).value = (⟨next, sink⟩, result) ∧
          ∀ e, result ≠ .error (.framing e) := by
  cases hbody : Request.decode body with
  | error cause =>
    unfold handleMessage
    rw [hbody]
    refine ⟨s.handler, _, .undecodable hbody, fun sink e hput => sendError_cut hput,
      fun sink hput => ?_⟩
    obtain ⟨hvalue, hfree⟩ := sendError_kept hs (.decode cause) hput
    exact ⟨hfree, _, hvalue, fun e h => by cases h⟩
  | ok request =>
    rcases hanswer : (s.handler.handle language request.method request.params).value with
      ⟨next, answer⟩
    obtain ⟨before, hhandle⟩ := handleMessage_of_decode language hbody hanswer
    have hs' : (⟨next, s.sink⟩ : Session).sink.Fits := hs
    have hmessage : s.handleMessage language body = _ := hhandle s.sink
    have hmessage' : s.free.handleMessage language body = _ := hhandle s.sink.free
    refine ⟨next, _, exchange_of_answer language hbody hanswer, fun sink e hput => ?_,
      fun sink hput => ?_⟩
    · rw [hmessage]
      exact settle_cut hput
    · obtain ⟨hfree, result, hvalue, hresult⟩ := settle_kept hs' hput
      rw [hmessage, hmessage']
      refine ⟨?_, result, hvalue, hresult⟩
      rw [show (⟨next, s.sink.free⟩ : Session) = free ⟨next, s.sink⟩ from rfl, hfree]
      rfl

theorem serveOne_cut {s next : Session} {body : List UInt8} {e : FramingError}
    (hvalue : (s.handleMessage language body).value = (next, .error (.framing e))) :
    (s.serveOne language body).value = (next, some (.error e)) := by
  simp only [serveOne, Logged.value_bind, hvalue]
  rfl

theorem serveOne_kept {s next : Session} {body : List UInt8} {result : Except ServerError Unit}
    (hvalue : (s.handleMessage language body).value = (next, result))
    (hresult : ∀ e, result ≠ .error (.framing e))
    (hfree : s.free.handleMessage language body = freed (s.handleMessage language body)) :
    (s.serveOne language body).value =
        (next, if next.handler.signal.isArmed then some (.ok ()) else none) ∧
      s.free.serveOne language body = freed (s.serveOne language body) := by
  have hstate : next.free.handler = next.handler := rfl
  refine ⟨?_, freed_log (freed_bind hfree ?_) _⟩
  · simp only [serveOne, Logged.value_bind, hvalue]
    cases result with
    | ok =>
      simp only
      split_ifs <;> rfl
    | error e =>
      cases e with
      | framing cause => exact absurd rfl (hresult cause)
      | decode cause =>
        simp only [Logged.value_bind]
        split_ifs <;> rfl
      | handler method cause =>
        simp only [Logged.value_bind]
        split_ifs <;> rfl
  · have hfreed : (freed (s.handleMessage language body)).value = (next.free, result) := by
      rw [freed, hvalue]
    rw [hfree, hfreed, hvalue]
    cases result with
    | ok =>
      simp only [hstate]
      split_ifs <;> rfl
    | error e =>
      cases e with
      | framing cause => rfl
      | decode cause =>
        simp only [hstate]
        split_ifs <;> rfl
      | handler method cause =>
        simp only [hstate]
        split_ifs <;> rfl

section Put

variable {h next : Handler} {body : List UInt8} {reply : Option Response}
  {sink after : Frame.Sink}

theorem serveOne_put_error (hexchange : Exchange language h body next reply) (hsink : sink.Fits)
    {e : FramingError} (hput : sink.put reply = (after, .error e)) :
    ((⟨h, sink⟩ : Session).serveOne language body).value = (⟨next, after⟩, some (.error e)) := by
  obtain ⟨next', reply', hexchange', hcut, -⟩ :=
    handleMessage_put (s := ⟨h, sink⟩) language hsink body
  obtain ⟨rfl, rfl⟩ := hexchange.unique hexchange'
  exact serveOne_cut language (hcut after e hput)

theorem serveOne_put_ok (hexchange : Exchange language h body next reply) (hsink : sink.Fits)
    (hput : sink.put reply = (after, .ok ())) :
    ((⟨h, sink⟩ : Session).serveOne language body).value =
        (⟨next, after⟩, if next.signal.isArmed then some (.ok ()) else none) ∧
      (⟨h, sink.free⟩ : Session).serveOne language body =
        freed ((⟨h, sink⟩ : Session).serveOne language body) := by
  obtain ⟨next', reply', hexchange', -, hkept⟩ :=
    handleMessage_put (s := ⟨h, sink⟩) language hsink body
  obtain ⟨rfl, rfl⟩ := hexchange.unique hexchange'
  obtain ⟨hfree, result, hvalue, hresult⟩ := hkept after hput
  exact serveOne_kept language hvalue hresult hfree

end Put

end Language

end Session

end LanguageServer
