import LanguageServer.Proofs.Frame.Local
import LanguageServer.Proofs.Session.Signal

/-! # Serving a stream

To serve a stream is to hand its messages over one by one, and to stop at the end of the stream, at
an error of its framing or after the message that arms the exit signal. A body that is no message
and a method that fails are answered or logged, and the serving goes on.

* `handleMessage_isFatal`: no message is the end of the connection if its reply can be written;
* `serveFrom_eq`: one message of a stream;
* `serveFrom_of_idle`, `serveFrom_of_delivers`: a stream without a message that arms the signal, and
  the messages of a stream up to one that does;
* `serve_eq_handleAll`: every stream. -/

namespace LanguageServer.Session

section Language

variable {α : Type} [Script.Syntactic α] (language : Language α)

/-! ### One message -/

theorem Lossless.send {s : Session} (hs : s.Lossless) (response : Response) :
    (s.send response).value.2 = .ok () := by
  rw [hs.eq_holding]
  rfl

theorem Lossless.sendError {s : Session} (hs : s.Lossless) (response : Response)
    (e : ServerError) : (s.sendError response e).value.2 = .error e := by
  rw [hs.eq_holding]
  rfl

/-- **No message is the end of the connection** if its reply can be written. -/
theorem handleMessage_isFatal {s : Session} (hs : s.Lossless) {body : List UInt8}
    {e : ServerError} (he : (s.handleMessage language body).value.2 = .error e) :
    e.isFatal = false := by
  unfold handleMessage at he
  cases hbody : Request.decode body with
  | error cause =>
    simp only [hbody] at he
    rw [hs.sendError] at he
    cases he
    rfl
  | ok request =>
    rcases hanswer : (s.handler.handle language request.method request.params).value with
      ⟨next, answer⟩
    simp only [hbody, Logged.value_bind, hanswer] at he
    -- the state of the methods changes, the sink does not
    have hnext : Lossless { s with handler := next } := hs
    cases answer with
    | error cause =>
      cases hid : request.id with
      | none =>
        simp only [hid] at he
        cases he
        rfl
      | some id =>
        simp only [hid] at he
        rw [hnext.sendError] at he
        cases he
        rfl
    | ok result =>
      cases hid : request.id with
      | none => simp only [hid] at he; cases he
      | some id =>
        cases result with
        | none => simp only at he; cases he
        | some v =>
          simp only [hid] at he
          rw [hnext.send] at he
          cases he

/-- After a message the serving ends only if the signal is armed. -/
theorem serveOne_value {s : Session} (hs : s.Lossless) (body : List UInt8) :
    (s.serveOne language body).value =
      ((s.handleMessage language body).value.1,
        if (s.handleMessage language body).value.1.handler.signal.isArmed then some (.ok ())
        else none) := by
  have hfatal : ∀ e, (s.handleMessage language body).value.2 = .error e → e.isFatal = false :=
    fun e he => handleMessage_isFatal language hs he
  unfold serveOne
  simp only [Logged.value_bind]
  generalize (s.handleMessage language body).value = outcome at hfatal ⊢
  obtain ⟨next, result⟩ := outcome
  cases result with
  | ok =>
    simp only
    split_ifs <;> rfl
  | error e =>
    cases e with
    | framing cause => cases hfatal _ rfl
    | decode cause =>
      simp only [Logged.value_bind]
      split_ifs <;> rfl
    | handler method cause =>
      simp only [Logged.value_bind]
      split_ifs <;> rfl

/-- **The first message of a stream** is handed over, and then the rest of the stream is served
unless the signal is armed. -/
theorem serveFrom_eq {s : Session} (hs : s.Lossless) (bs : List UInt8) :
    (s.serveFrom language none bs).value =
      match Frame.read none bs with
      | .error e => (s, .error e)
      | .ok none => (s, .ok ())
      | .ok (some (body, rest)) =>
        if (s.handleMessage language body).value.1.handler.signal.isArmed then
          ((s.handleMessage language body).value.1, .ok ())
        else ((s.handleMessage language body).value.1.serveFrom language none rest).value := by
  cases bs with
  | nil => rw [serveFrom]; rfl
  | cons b bs =>
    rw [serveFrom, Frame.read]
    cases Frame.message none b bs with
    | error e => rfl
    | ok t =>
      simp only [Logged.value_bind, serveOne_value language hs t.value, Except.map, Taken.pair]
      by_cases harmed : (s.handleMessage language t.value).value.1.handler.signal.isArmed = true
      · simp only [if_pos harmed]
        rfl
      · simp only [if_neg harmed]

/-! ### Whole streams -/

theorem serveFrom_of_idle {s : Session} (hs : s.Lossless) (bs : List UInt8)
    (hidle : (handleAll language s (Frame.readAll none bs).1).handler.signal.isArmed = false) :
    (s.serveFrom language none bs).value =
      (handleAll language s (Frame.readAll none bs).1,
        match (Frame.readAll none bs).2 with
        | none => .ok ()
        | some e => .error e) := by
  generalize hall : Frame.readAll none bs = all at hidle ⊢
  obtain ⟨bodies, broken⟩ := all
  induction bodies generalizing s bs with
  | nil =>
    rw [serveFrom_eq language hs]
    rw [Frame.readAll_eq] at hall
    cases hread : Frame.read none bs with
    | error e => rw [hread] at hall; cases hall; rfl
    | ok next =>
      cases next with
      | none => rw [hread] at hall; cases hall; rfl
      | some next => rw [hread] at hall; cases hall
  | cons body bodies ih =>
    have hbodies : (Frame.readAll none bs).1 = [body] ++ bodies := by rw [hall]; rfl
    obtain ⟨rest, hdelivers, hrest⟩ := Frame.delivers_of_readAll hbodies
    cases hdelivers with
    | cons hread hnil =>
      cases hnil
      rw [hall] at hrest
      rw [serveFrom_eq language hs, hread]
      rw [handleAll_cons] at hidle ⊢
      have hnext := (hs.exchange language body).1
      simp only [idle_of_handleAll language hnext hidle]
      exact ih hnext rest hrest hidle

/-- **The messages up to one that arms the signal** are handed over, whatever follows them. -/
theorem serveFrom_of_delivers {s : Session} (hs : s.Lossless) {bs rest last : List UInt8}
    {bodies : List (List UInt8)} (hdelivers : Frame.Delivers bs (bodies ++ [last]) rest)
    (hidle : (handleAll language s bodies).handler.signal.isArmed = false)
    (harmed : (handleAll language s (bodies ++ [last])).handler.signal.isArmed = true) :
    (s.serveFrom language none bs).value = (handleAll language s (bodies ++ [last]), .ok ()) := by
  induction bodies generalizing s bs with
  | nil =>
    cases hdelivers with
    | cons hread _ =>
      rw [serveFrom_eq language hs, hread]
      exact if_pos harmed
  | cons body bodies ih =>
    cases hdelivers with
    | cons hread hrest =>
      rw [serveFrom_eq language hs, hread]
      have hnext := (hs.exchange language body).1
      simp only [idle_of_handleAll language hnext hidle]
      exact ih hnext hrest hidle harmed

/-- The message at the given place arms the signal, when the messages are given one after the other
to a fresh session. -/
def Arms (bodies : List (List UInt8)) (k : Nat) : Prop :=
  (handleAll language (.fresh .unlimited) (bodies.take k)).handler.signal.isArmed = false ∧
    (handleAll language (.fresh .unlimited) (bodies.take (k + 1))).handler.signal.isArmed = true

variable {language}

theorem Arms.exists_take {bodies : List (List UInt8)} {k : Nat} (h : Arms language bodies k) :
    ∃ body, bodies.take (k + 1) = bodies.take k ++ [body] ∧ body ≠ [] := by
  obtain ⟨hidle, harmed⟩ := h
  by_cases hk : k < bodies.length
  · refine ⟨bodies[k], List.take_succ_eq_append_getElem hk, ?_⟩
    rw [List.take_succ_eq_append_getElem hk, handleAll_append] at harmed
    intro hempty
    have hasks := asks_exit_of_armed language
      (lossless_fresh.handleAll language (bodies.take k)) hidle harmed
    rw [hempty] at hasks
    cases hasks
  · rw [List.take_of_length_le (by omega)] at hidle harmed
    rw [hidle] at harmed
    cases harmed

theorem idle_of_not_arms {bodies : List (List UInt8)} (h : ∀ k, ¬ Arms language bodies k) :
    (handleAll language (.fresh .unlimited) bodies).handler.signal.isArmed = false := by
  have hidle : ∀ k, (handleAll language (.fresh .unlimited)
      (bodies.take k)).handler.signal.isArmed = false := by
    intro k
    induction k with
    | zero => rfl
    | succ k ih =>
      by_contra harmed
      exact h k ⟨ih, (Bool.not_eq_false _).mp harmed⟩
  have hall := hidle bodies.length
  rwa [List.take_length] at hall

variable (language)

/-- **Serving a stream is handing its messages over one by one.** If one of them arms the signal, it
is the last that is handed over, the serving ends well, and it makes no difference which bytes stand
behind it in place of those that do. If none does, all are handed over, and the serving ends well or
with the error that breaks the framing off. No message ends it otherwise: whatever a message
reports, it is not fatal. -/
theorem serve_eq_handleAll (input : List UInt8) :
    (∀ k, Arms language (Frame.readAll none input).1 k →
      ((Session.fresh .unlimited).serve language none input).value =
        (handleAll language (.fresh .unlimited) ((Frame.readAll none input).1.take (k + 1)),
          .ok ()) ∧
      ∃ used rest, input = used ++ rest ∧
        Frame.Delivers input ((Frame.readAll none input).1.take (k + 1)) rest ∧
        ∀ other, ((Session.fresh .unlimited).serve language none (used ++ other)).value =
          ((Session.fresh .unlimited).serve language none input).value) ∧
    ((∀ k, ¬ Arms language (Frame.readAll none input).1 k) →
      ((Session.fresh .unlimited).serve language none input).value =
        (handleAll language (.fresh .unlimited) (Frame.readAll none input).1,
          match (Frame.readAll none input).2 with
          | none => .ok ()
          | some e => .error e)) ∧
    ∀ bodies body e,
      ((handleAll language (.fresh .unlimited) bodies).handleMessage language body).value.2 =
        .error e → e.isFatal = false := by
  -- the greeting in the log is all that `serve` adds
  have hserve : ∀ bs, ((Session.fresh .unlimited).serve language none bs).value =
      ((Session.fresh .unlimited).serveFrom language none bs).value := fun _ => rfl
  refine ⟨fun k harms => ?_, fun hnone => ?_, fun bodies body e he => ?_⟩
  · obtain ⟨body, htake, hbody⟩ := harms.exists_take
    obtain ⟨hidle, harmed⟩ := harms
    obtain ⟨rest, hdelivers, -⟩ :=
      Frame.delivers_of_readAll (List.take_append_drop (k + 1) (Frame.readAll none input).1).symm
    rw [htake] at harmed hdelivers ⊢
    obtain ⟨used, hused, hlocal⟩ := hdelivers.local hbody
    have hserved : ∀ other, ((Session.fresh .unlimited).serve language none (used ++ other)).value =
        (handleAll language (.fresh .unlimited)
          ((Frame.readAll none input).1.take k ++ [body]), .ok ()) := fun other =>
      (hserve _).trans
        (serveFrom_of_delivers language lossless_fresh (hlocal other) hidle harmed)
    have hinput := hserved rest
    rw [← hused] at hinput
    exact ⟨hinput, used, rest, hused, hdelivers, fun other => (hserved other).trans hinput.symm⟩
  · rw [hserve]
    exact serveFrom_of_idle language lossless_fresh input (idle_of_not_arms hnone)
  · exact handleMessage_isFatal language (lossless_fresh.handleAll language bodies) he

end Language

/-- A notification to exit, and bytes behind it that are no message. -/
def parting : List UInt8 :=
  Frame.encode (Text.Utf8.ofString "\x7b\"method\":\"exit\"\x7d") ++ Text.Utf8.ofString "no header"

/-- The serving ends well, although the framing breaks off behind the last message. -/
theorem serve_parting : Arms .builtin (Frame.readAll none parting).1 0 ∧
    ((Session.fresh .unlimited).serve .builtin none parting).value =
      (handleAll .builtin (.fresh .unlimited) ((Frame.readAll none parting).1.take 1),
        .ok ()) := by
  have harms : Arms .builtin (Frame.readAll none parting).1 0 := ⟨rfl, by decide +kernel⟩
  exact ⟨harms, ((serve_eq_handleAll .builtin parting).1 0 harms).1⟩

end LanguageServer.Session
