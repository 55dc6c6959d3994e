import LanguageServer.Proofs.Frame.Grammar
import LanguageServer.Proofs.Session.Signal
import LanguageServer.Proofs.Session.Writing

/-! # Sinks that fail

A sink may fail at any point of a run. Until then the run is the one with a sink that never fails,
step by step; and then it is over: the reply that could not be written is cut off, the state of the
methods is the one after the message that was being answered, and no message is read any more.

* `Serves`: the messages that a stream hands over, what they do and their replies;
* `serveFrom_kept`: a stream none of whose replies fails;
* `CutShort`, `exists_cutShort`: a stream with a reply that fails;
* `serve_failing`: every stream and every sink. -/

namespace LanguageServer.Session

section Language

variable {α : Type} [Script.Syntactic α] (language : Language α)

/-! ### Streams -/

section Read

variable {s next : Session} {bs body rest : List UInt8}

theorem serveFrom_read (hread : Frame.read none bs = .ok (some (body, rest))) :
    s.serveFrom language none bs = (s.serveOne language body >>= fun (s, ending) =>
      match ending with
      | some result => pure (s, result)
      | none => s.serveFrom language none rest) := by
  cases bs with
  | nil => cases hread
  | cons b bs =>
    rw [Frame.read] at hread
    rw [serveFrom]
    cases hmessage : Frame.message none b bs with
    | error e => rw [hmessage] at hread; cases hread
    | ok t => rw [hmessage] at hread; cases hread; rfl

theorem serveFrom_stop (hread : Frame.read none bs = .ok (some (body, rest)))
    {result : Except FramingError Unit}
    (hone : (s.serveOne language body).value = (next, some result)) :
    s.serveFrom language none bs = ⟨(next, result), (s.serveOne language body).events⟩ := by
  rw [serveFrom_read language hread]
  show Logged.mk _ _ = Logged.mk _ _
  rw [hone]
  simp

theorem serveFrom_go (hread : Frame.read none bs = .ok (some (body, rest)))
    (hone : (s.serveOne language body).value = (next, none)) :
    s.serveFrom language none bs = ⟨(next.serveFrom language none rest).value,
      (s.serveOne language body).events ++ (next.serveFrom language none rest).events⟩ := by
  rw [serveFrom_read language hread]
  show Logged.mk _ _ = Logged.mk _ _
  rw [hone]

end Read

theorem read_ne_write {bs : List UInt8} {reason : String} :
    Frame.read none bs ≠ .error (.write reason) := by
  intro hread
  have hne : bs ≠ [] := by
    rintro rfl
    cases hread
  rcases Frame.framed_or_broken hne with ⟨_, _, hframed⟩ | ⟨_, hbroken⟩
  · rw [hframed.read] at hread
    cases hread
  · rw [hbroken.read] at hread
    cases hread
    cases hbroken with
    | offended _ _ hoffends => cases hoffends

theorem serveFrom_end {bs : List UInt8} (hend : ∀ next, Frame.read none bs ≠ .ok (some next)) :
    ∃ result events, (∀ reason, result ≠ .error (.write reason)) ∧
      ∀ s : Session, s.serveFrom language none bs = ⟨(s, result), events⟩ := by
  cases bs with
  | nil =>
    refine ⟨.ok (), ((Session.fresh .unlimited).serveFrom language none []).events, nofun,
      fun s => ?_⟩
    rw [serveFrom, serveFrom]
    rfl
  | cons b bs =>
    cases hmessage : Frame.message none b bs with
    | error e =>
      refine ⟨.error e, [], fun reason h => ?_, fun s => ?_⟩
      · have hread : Frame.read none (b :: bs) = .error (.write reason) := by
          rw [Frame.read, hmessage, Except.error.inj h]
          rfl
        exact read_ne_write hread
      · rw [serveFrom, hmessage]
        rfl
    | ok t =>
      refine absurd ?_ (hend t.pair)
      rw [Frame.read, hmessage]
      rfl

/-- The messages that a stream hands over, up to its end or a message that arms the signal, what
they do one after the other, and the replies they get. -/
inductive Serves : Handler → List UInt8 → List (List UInt8) → Handler → List (Option Response) → Prop
  | ended {h : Handler} {bs : List UInt8}
    (hend : ∀ next, Frame.read none bs ≠ .ok (some next)) : Serves h bs [] h []
  | exiting {h next : Handler} {bs body rest : List UInt8} {reply : Option Response}
    (hread : Frame.read none bs = .ok (some (body, rest)))
    (hfirst : Exchange language h body next reply) (harmed : next.signal.isArmed = true) :
    Serves h bs [body] next [reply]
  | going {h next last : Handler} {bs body rest : List UInt8} {reply : Option Response}
    {bodies : List (List UInt8)} {replies : List (Option Response)}
    (hread : Frame.read none bs = .ok (some (body, rest)))
    (hfirst : Exchange language h body next reply) (hidle : next.signal.isArmed = false)
    (hrest : Serves next rest bodies last replies) :
    Serves h bs (body :: bodies) last (reply :: replies)

theorem exists_serves (h : Handler) (bs : List UInt8) :
    ∃ bodies last replies, Serves language h bs bodies last replies := by
  by_cases hend : ∀ next, Frame.read none bs ≠ .ok (some next)
  · exact ⟨[], h, [], .ended hend⟩
  · simp only [not_forall, not_not] at hend
    obtain ⟨⟨body, rest⟩, hread⟩ := hend
    obtain ⟨next, reply, hfirst, -⟩ := handleMessage_exchange language h [] body
    have hshorter := Frame.length_rest_lt hread
    cases hsignal : next.signal.isArmed with
    | true => exact ⟨_, _, _, .exiting hread hfirst hsignal⟩
    | false =>
      obtain ⟨bodies, last, replies, hrest⟩ := exists_serves next rest
      exact ⟨_, _, _, .going hread hfirst hsignal hrest⟩
termination_by bs.length

variable {language} {h last : Handler} {bs : List UInt8} {bodies : List (List UInt8)}
  {replies : List (Option Response)}

theorem Serves.delivers (hserves : Serves language h bs bodies last replies) (k : Nat) :
    ∃ rest, Frame.Delivers bs (bodies.take k) rest := by
  induction hserves generalizing k with
  | ended hend =>
    rw [List.take_nil]
    exact ⟨_, .nil⟩
  | exiting hread hfirst harmed =>
    cases k with
    | zero => exact ⟨_, .nil⟩
    | succ k =>
      rw [List.take_succ_cons, List.take_nil]
      exact ⟨_, .cons hread .nil⟩
  | going hread hfirst hidle hrest ih =>
    cases k with
    | zero => exact ⟨_, .nil⟩
    | succ k =>
      obtain ⟨rest, hdelivers⟩ := ih k
      exact ⟨rest, .cons hread hdelivers⟩

theorem serveOne_holding {h next : Handler} {body : List UInt8} {reply : Option Response}
    (stored : List UInt8) (hexchange : Exchange language h body next reply) :
    ((holding h stored).serveOne language body).value =
      (holding next (stored ++ reply.toList.flatMap frame),
        if next.signal.isArmed then some (.ok ()) else none) := by
  have hfits : (⟨stored, none, none⟩ : Frame.Sink).Fits := nofun
  exact (serveOne_put_ok language hexchange hfits (Frame.Sink.put_unlimited stored reply)).1

/-- **With a sink that never fails** all replies are written. -/
theorem serveFrom_holding (hserves : Serves language h bs bodies last replies)
    (stored : List UInt8) :
    ((holding h stored).serveFrom language none bs).value.1 =
      holding last (stored ++ (replies.filterMap id).flatMap frame) := by
  induction hserves generalizing stored with
  | ended hend =>
    obtain ⟨result, events, -, hserve⟩ := serveFrom_end language hend
    rw [hserve, List.filterMap_nil, List.flatMap_nil, List.append_nil]
  | @exiting _ _ _ _ _ reply hread hexchange harmed =>
    have hone := serveOne_holding stored hexchange
    rw [if_pos harmed] at hone
    rw [serveFrom_stop language hread hone]
    cases reply <;> simp
  | @going _ _ _ _ _ _ reply _ replies hread hexchange hidle hrest ih =>
    have hone := serveOne_holding stored hexchange
    rw [hidle, if_neg Bool.false_ne_true] at hone
    rw [serveFrom_go language hread hone, ih]
    cases reply <;> simp

/-- **Until a reply fails** a run is the one with a sink that never fails. -/
theorem serveFrom_kept (hserves : Serves language h bs bodies last replies) {sink : Frame.Sink}
    (hsink : sink.Fits) (hnone : ∀ k, ¬ sink.FailsAt replies k) :
    (⟨h, sink.free⟩ : Session).serveFrom language none bs =
        freed ((⟨h, sink⟩ : Session).serveFrom language none bs) ∧
      ∀ reason, ((⟨h, sink⟩ : Session).serveFrom language none bs).value.2 ≠
        .error (.write reason) := by
  induction hserves generalizing sink with
  | ended hend =>
    obtain ⟨result, events, hresult, hserve⟩ := serveFrom_end language hend
    rw [hserve, hserve]
    exact ⟨rfl, hresult⟩
  | @exiting h next _ body _ reply hread hexchange harmed =>
    rcases Frame.Sink.put_cases hsink reply with ⟨after, hput, -⟩ | ⟨_, _, hput, -⟩
    · obtain ⟨hone, hfree⟩ := serveOne_put_ok language hexchange hsink hput
      rw [if_pos harmed] at hone
      have hone' := congrArg Logged.value hfree
      rw [freed, hone] at hone'
      rw [serveFrom_stop language hread hone, serveFrom_stop language hread hone', hfree]
      exact ⟨rfl, by simp⟩
    · exact absurd (.here hput) (hnone 0)
  | @going h next _ _ body _ reply _ replies hread hexchange hidle hrest ih =>
    rcases Frame.Sink.put_cases hsink reply with ⟨after, hput, -, hafter⟩ | ⟨_, _, hput, -⟩
    · obtain ⟨hone, hfree⟩ := serveOne_put_ok language hexchange hsink hput
      rw [hidle, if_neg Bool.false_ne_true] at hone
      have hone' := congrArg Logged.value hfree
      rw [freed, hone] at hone'
      obtain ⟨hsame, hresult⟩ := ih hafter fun k hk => hnone (k + 1) (.later hput hk)
      rw [serveFrom_go language hread hone, serveFrom_go language hread hone', hfree]
      refine ⟨?_, hresult⟩
      rw [show free ⟨next, after⟩ = ⟨next, after.free⟩ from rfl, hsame]
      rfl
    · exact absurd (.here hput) (hnone 0)

variable (language) in
/-- The run over a stream that begins with the given messages, the last of which gets a reply that
fails: nothing behind them is read, the failure is reported, all of them have had their effect, and
the last reply is cut off. -/
structure CutShort (h : Handler) (sink : Frame.Sink) (bodies : List (List UInt8))
    (replies : List (Option Response)) (run : Logged (Session × Except FramingError Unit)) :
    Prop where
  serveFrom : ∀ bs rest, Frame.Delivers bs bodies rest →
    (⟨h, sink⟩ : Session).serveFrom language none bs = run
  fails : ∃ reason, run.value.2 = .error (.write reason)
  exchanges : Exchanges language h bodies run.value.1.handler replies
  stored : run.value.1.sink.stored <+: sink.stored ++ (replies.filterMap id).flatMap frame

theorem cutShort_here {h next : Handler} {body : List UInt8} {reply : Option Response}
    {sink after : Frame.Sink} {e : FramingError} (hexchange : Exchange language h body next reply)
    (hsink : sink.Fits) (hput : sink.put reply = (after, .error e)) :
    CutShort language h sink [body] [reply]
      ⟨(⟨next, after⟩, .error e), ((⟨h, sink⟩ : Session).serveOne language body).events⟩ where
  serveFrom bs rest hdelivers := by
    cases hdelivers with
    | cons hread _ =>
      exact serveFrom_stop language hread (serveOne_put_error language hexchange hsink hput)
  fails := by
    obtain ⟨reason, rfl⟩ := (Frame.Sink.put_error hsink hput).1
    exact ⟨reason, rfl⟩
  exchanges := .cons hexchange .nil
  stored := by
    have hprefix := (Frame.Sink.put_error hsink hput).2
    cases reply <;> simpa using hprefix

theorem CutShort.later {h next : Handler} {body : List UInt8} {reply : Option Response}
    {sink after : Frame.Sink} {bodies : List (List UInt8)} {replies : List (Option Response)}
    {run : Logged (Session × Except FramingError Unit)}
    (hrun : CutShort language next after bodies replies run)
    (hexchange : Exchange language h body next reply) (hidle : next.signal.isArmed = false)
    (hsink : sink.Fits) (hput : sink.put reply = (after, .ok ())) :
    CutShort language h sink (body :: bodies) (reply :: replies)
      ⟨run.value, ((⟨h, sink⟩ : Session).serveOne language body).events ++ run.events⟩ where
  serveFrom bs rest hdelivers := by
    have hone := (serveOne_put_ok language hexchange hsink hput).1
    rw [hidle, if_neg Bool.false_ne_true] at hone
    cases hdelivers with
    | cons hread hothers =>
      rw [serveFrom_go language hread hone, hrun.serveFrom _ _ hothers]
  fails := hrun.fails
  exchanges := .cons hexchange hrun.exchanges
  stored := by
    have hprefix := hrun.stored
    rw [(Frame.Sink.put_ok hsink hput).1] at hprefix
    cases reply <;> simpa using hprefix

/-- **The first reply that fails** ends the run after the message that it answers. -/
theorem exists_cutShort (hserves : Serves language h bs bodies last replies) {sink : Frame.Sink}
    (hsink : sink.Fits) {k : Nat} (hfails : sink.FailsAt replies k) :
    ∃ run, CutShort language h sink (bodies.take (k + 1)) (replies.take (k + 1)) run := by
  induction hserves generalizing sink k with
  | ended hend => cases hfails
  | exiting hread hexchange harmed =>
    cases hfails with
    | here hput => exact ⟨_, cutShort_here hexchange hsink hput⟩
    | later hput hrest => cases hrest
  | going hread hexchange hidle hrest ih =>
    cases hfails with
    | here hput => exact ⟨_, cutShort_here hexchange hsink hput⟩
    | later hput hlater =>
      obtain ⟨run, hrun⟩ := ih (Frame.Sink.put_ok hsink hput).2 hlater
      exact ⟨_, hrun.later hexchange hidle hsink hput⟩

/-! ### Runs -/

theorem handler_handleAll {bodies : List (List UInt8)} {last : Handler}
    {replies : List (Option Response)} (h : Exchanges language .fresh bodies last replies) :
    (handleAll language (.fresh .unlimited) bodies).handler = last := by
  obtain ⟨last', replies', hexchanges, hall⟩ := handleAll_exchanges language .fresh [] bodies
  obtain ⟨rfl, -⟩ := hexchanges.unique h
  exact congrArg Session.handler hall

variable (language)

/-- **A sink that fails only cuts a run off.** Whatever a sink stores and however often it can be
flushed: what it stores is a prefix of what a sink that never fails would store. The run reports
that it could not write exactly if some reply fails. Then the state of the methods is the one after
the messages up to the one that this reply answers, and no message after it is read: the run is the
same whatever follows those messages. If no reply fails, both runs agree in everything. -/
theorem serve_failing (limit flushes : Option (Nat × String)) (input : List UInt8) :
    let sink : Frame.Sink := ⟨[], limit, flushes⟩
    let cut := (Session.fresh sink).serve language none input
    let whole := (Session.fresh .unlimited).serve language none input
    ∃ bodies last replies, Serves language .fresh input bodies last replies ∧
      whole.value.1 = holding last ((replies.filterMap id).flatMap frame) ∧
      cut.value.1.sink.stored <+: whole.value.1.sink.stored ∧
      ((∃ reason, cut.value.2 = .error (.write reason)) ↔ ∃ k, sink.FailsAt replies k) ∧
      (∀ k, sink.FailsAt replies k →
        cut.value.1.handler =
          (handleAll language (.fresh .unlimited) (bodies.take (k + 1))).handler ∧
        (∃ rest, Frame.Delivers input (bodies.take (k + 1)) rest) ∧
        ∀ other rest, Frame.Delivers other (bodies.take (k + 1)) rest →
          (Session.fresh sink).serve language none other = cut) ∧
      ((∀ k, ¬ sink.FailsAt replies k) → whole = freed cut) := by
  intro sink cut whole
  obtain ⟨bodies, last, replies, hserves⟩ := exists_serves language .fresh input
  have hsink : sink.Fits := fun room reason _ => Nat.zero_le room
  have hwhole : whole.value.1 = holding last ((replies.filterMap id).flatMap frame) :=
    serveFrom_holding hserves []
  have hserve : ∀ (s : Session) bs, s.serve language none bs =
      ⟨(s.serveFrom language none bs).value,
        start.events ++ (s.serveFrom language none bs).events⟩ := fun _ _ => rfl
  have hcut : ∀ k, sink.FailsAt replies k → ∃ run,
      CutShort language .fresh sink (bodies.take (k + 1)) (replies.take (k + 1)) run ∧
        cut = ⟨run.value, start.events ++ run.events⟩ := by
    intro k hk
    obtain ⟨run, hrun⟩ := exists_cutShort hserves hsink hk
    obtain ⟨rest, hdelivers⟩ := hserves.delivers (k + 1)
    refine ⟨run, hrun, (hserve (.fresh sink) input).trans ?_⟩
    rw [← hrun.serveFrom input rest hdelivers]
    rfl
  have hkept : (∀ k, ¬ sink.FailsAt replies k) → whole = freed cut ∧
      ∀ reason, cut.value.2 ≠ .error (.write reason) := by
    intro hnone
    obtain ⟨hsame, hresult⟩ := serveFrom_kept hserves hsink hnone
    refine ⟨?_, hresult⟩
    refine (hserve (.fresh .unlimited) input).trans ?_
    rw [show Session.fresh .unlimited = ⟨.fresh, sink.free⟩ from rfl, hsame]
    rfl
  refine ⟨bodies, last, replies, hserves, hwhole, ?_, ?_, fun k hk => ?_, fun hnone =>
    (hkept hnone).1⟩
  · by_cases hfails : ∃ k, sink.FailsAt replies k
    · obtain ⟨k, hk⟩ := hfails
      obtain ⟨run, hrun, hvalue⟩ := hcut k hk
      obtain ⟨more, hmore⟩ := (List.take_prefix (k + 1) replies).filterMap id
      rw [hwhole, hvalue, holding, ← hmore, List.flatMap_append]
      exact hrun.stored.trans (List.prefix_append _ _)
    · rw [(hkept (not_exists.mp hfails)).1]
      exact List.prefix_rfl
  · constructor
    · rintro ⟨reason, hreason⟩
      by_contra hfails
      exact (hkept (not_exists.mp hfails)).2 reason hreason
    · rintro ⟨k, hk⟩
      obtain ⟨run, hrun, hvalue⟩ := hcut k hk
      rw [hvalue]
      exact hrun.fails
  · obtain ⟨run, hrun, hvalue⟩ := hcut k hk
    rw [hvalue]
    refine ⟨(handler_handleAll hrun.exchanges).symm, hserves.delivers (k + 1),
      fun other rest hdelivers => ?_⟩
    rw [hserve, ← hrun.serveFrom other rest hdelivers]
    rfl

end Language

end LanguageServer.Session
