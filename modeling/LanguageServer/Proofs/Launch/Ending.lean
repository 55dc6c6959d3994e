import LanguageServer.Launch.Program
import LanguageServer.Proofs.Session.Serve
import Mathlib.Logic.Relation

/-! # How the program ends

Two tasks decide on the status of the process. The main task serves the standard input stream and
ends with the status of `farewell`. The terminator waits until the signal is armed and then ends the
process with the status that the signal records, at whatever point the main task has come to. The
two never disagree: the main task serves no further message after the one that arms the signal, and
reports an error of the framing only while the signal is idle.

* `Process`, `Process.Step`: the points the main task comes to, and what either task does there;
* `Process.Sound.step`: a step keeps the invariant and the status that the main task would end with;
* `reaches_ended_iff`: every run of the two tasks ends with the status of the main task alone;
* `status_run`: the status by the messages of the input. -/

namespace LanguageServer

/-! ### The two tasks -/

/-- The points that the main task comes to while it serves a stream: the next message is to be read;
a message has been handed over, and the signal is to be looked at; the serving is over; the process
is over. -/
inductive Process
  | reading (s : Session) (input : List UInt8)
  | handled (s : Session) (input : List UInt8)
  | stopped (s : Session) (result : Except FramingError Unit)
  | ended (status : Nat)

namespace Process

section Language

variable {α : Type} [Script.Syntactic α] (language : Language α)

/-- The session, while the process runs. -/
def session? : Process → Option Session
  | reading s _ | handled s _ | stopped s _ => some s
  | ended _ => none

/-- What the main task does next. -/
def main : Process → Process
  | reading s input =>
    match Frame.read none input with
    | .error e => stopped s (.error e)
    | .ok none => stopped s (.ok ())
    | .ok (some (body, rest)) =>
      match (s.handleMessage language body).value with
      | (s, .error (.framing e)) => stopped s (.error e)
      | (s, _) => handled s rest
  | handled s input =>
    if s.handler.signal.isArmed then stopped s (.ok ()) else reading s input
  | stopped s result => ended (Program.farewell s.handler.signal result).value.status
  | ended status => ended status

/-- One step of either task: the main task goes on, or the terminator sees that the signal is armed
and ends the process. -/
inductive Step : Process → Process → Prop
  | main (p : Process) : Step p (p.main language)
  | terminator {p : Process} {s : Session} (hsession : p.session? = some s)
    (harmed : s.handler.signal.isArmed = true) : Step p (ended s.handler.signal.exitCode)

/-- The status of a run whose serving ends in the given way. -/
def statusOf (served : Session × Except FramingError Unit) : Nat :=
  (Program.farewell served.1.handler.signal served.2).value.status

/-- The status that the main task comes to by itself. -/
def verdict : Process → Nat
  | reading s input => statusOf (s.serveFrom language none input).value
  | handled s input =>
    if s.handler.signal.isArmed then s.handler.signal.exitCode
    else statusOf (s.serveFrom language none input).value
  | stopped s result => statusOf (s, result)
  | ended status => status

/-- **What holds at every point:** replies can be written, no message is read once the signal is
armed, and an error is reported only while it is idle. -/
def Sound : Process → Prop
  | reading s _ => s.Lossless ∧ s.handler.signal.isArmed = false
  | handled s _ => s.Lossless
  | stopped s result => result = .ok () ∨ s.handler.signal.isArmed = false
  | ended _ => True

theorem statusOf_armed {s : Session} (harmed : s.handler.signal.isArmed = true) :
    statusOf (s, .ok ()) = s.handler.signal.exitCode := by
  simp only [statusOf, Program.farewell, harmed]
  rfl

theorem statusOf_idle {s : Session} (hidle : s.handler.signal.isArmed = false) :
    statusOf (s, .ok ()) = 0 := by
  simp only [statusOf, Program.farewell, hidle]
  rfl

theorem statusOf_error (s : Session) (e : FramingError) : statusOf (s, .error e) = 1 := rfl

variable {language}

theorem main_reading {s : Session} (hs : s.Lossless) {input body rest : List UInt8}
    (hread : Frame.read none input = .ok (some (body, rest))) :
    (reading s input).main language = handled (s.handleMessage language body).value.1 rest := by
  have hfatal : ∀ e, (s.handleMessage language body).value.2 = .error e → e.isFatal = false :=
    fun e he => Session.handleMessage_isFatal language hs he
  simp only [main, hread]
  generalize (s.handleMessage language body).value = outcome at hfatal ⊢
  obtain ⟨next, result⟩ := outcome
  cases result with
  | ok => rfl
  | error e =>
    cases e with
    | framing cause => cases hfatal _ rfl
    | decode | handler => rfl

theorem Sound.main {p : Process} (hp : p.Sound) :
    (p.main language).Sound ∧ (p.main language).verdict language = p.verdict language := by
  cases p with
  | reading s input =>
    obtain ⟨hs, hidle⟩ := hp
    have hserved := Session.serveFrom_eq language hs input
    cases hread : Frame.read none input with
    | error e =>
      simp only [hread] at hserved
      simp only [Process.main, verdict, hread, hserved]
      exact ⟨Or.inr hidle, trivial⟩
    | ok next =>
      cases next with
      | none =>
        simp only [hread] at hserved
        simp only [Process.main, verdict, hread, hserved]
        exact ⟨Or.inl rfl, trivial⟩
      | some next =>
        obtain ⟨body, rest⟩ := next
        simp only [hread] at hserved
        rw [main_reading hs hread, verdict, verdict, hserved]
        refine ⟨(hs.exchange language body).1, ?_⟩
        by_cases harmed : (s.handleMessage language body).value.1.handler.signal.isArmed = true
        · rw [if_pos harmed, if_pos harmed, statusOf_armed harmed]
        · rw [if_neg harmed, if_neg harmed]
  | handled s input =>
    rw [Process.main, verdict]
    by_cases harmed : s.handler.signal.isArmed = true
    · rw [if_pos harmed, if_pos harmed]
      exact ⟨Or.inl rfl, statusOf_armed harmed⟩
    · rw [if_neg harmed, if_neg harmed]
      exact ⟨⟨hp, (Bool.not_eq_true _).mp harmed⟩, rfl⟩
  | stopped s result => exact ⟨trivial, rfl⟩
  | ended status => exact ⟨trivial, rfl⟩

/-- The terminator ends the process with the status that the main task would end it with. -/
theorem Sound.exitCode_eq {p : Process} (hp : p.Sound) {s : Session}
    (hsession : p.session? = some s) (harmed : s.handler.signal.isArmed = true) :
    s.handler.signal.exitCode = p.verdict language := by
  cases p with
  | reading s' input =>
    cases hsession
    rw [hp.2] at harmed
    cases harmed
  | handled s' input =>
    cases hsession
    exact (if_pos harmed).symm
  | stopped s' result =>
    cases hsession
    rcases hp with rfl | hidle
    · exact (statusOf_armed harmed).symm
    · rw [hidle] at harmed
      cases harmed
  | ended status => cases hsession

/-- **A step keeps the invariant and the status,** whichever task takes it. -/
theorem Sound.step {p q : Process} (hp : p.Sound) (hstep : Step language p q) :
    q.Sound ∧ q.verdict language = p.verdict language := by
  cases hstep with
  | main => exact hp.main
  | terminator hsession harmed => exact ⟨trivial, hp.exitCode_eq hsession harmed⟩

theorem Sound.run {p q : Process} (hp : p.Sound)
    (hrun : Relation.ReflTransGen (Step language) p q) :
    q.Sound ∧ q.verdict language = p.verdict language := by
  induction hrun with
  | refl => exact ⟨hp, rfl⟩
  | tail _ hstep ih =>
    obtain ⟨hsound, hverdict⟩ := ih.1.step hstep
    exact ⟨hsound, hverdict.trans ih.2⟩

variable (language)

theorem stopped_ends (s : Session) (result : Except FramingError Unit) :
    ∃ status, Relation.ReflTransGen (Step language) (stopped s result) (ended status) :=
  ⟨_, .single (.main (stopped s result))⟩

/-- Left to itself the main task comes to an end, since every message shortens the stream. -/
theorem reading_ends {s : Session} (hs : s.Lossless) (input : List UInt8) :
    ∃ status, Relation.ReflTransGen (Step language) (reading s input) (ended status) := by
  have hstep : Step language (reading s input) ((reading s input).main language) := .main _
  cases hread : Frame.read none input with
  | error e =>
    simp only [Process.main, hread] at hstep
    obtain ⟨status, hends⟩ := stopped_ends language s (.error e)
    exact ⟨status, hends.head hstep⟩
  | ok next =>
    cases next with
    | none =>
      simp only [Process.main, hread] at hstep
      obtain ⟨status, hends⟩ := stopped_ends language s (.ok ())
      exact ⟨status, hends.head hstep⟩
    | some next =>
      obtain ⟨body, rest⟩ := next
      rw [main_reading hs hread] at hstep
      have hlook : Step language (handled (s.handleMessage language body).value.1 rest) _ := .main _
      rw [Process.main] at hlook
      have hshorter : rest.length < input.length := Frame.length_rest_lt hread
      split_ifs at hlook
      · obtain ⟨status, hends⟩ :=
          stopped_ends language (s.handleMessage language body).value.1 (.ok ())
        exact ⟨status, (hends.head hlook).head hstep⟩
      · obtain ⟨status, hends⟩ := reading_ends (hs.exchange language body).1 rest
        exact ⟨status, (hends.head hlook).head hstep⟩
termination_by input.length

/-- **Every run of the two tasks ends with the status of the main task alone,** and some run
ends. -/
theorem reaches_ended_iff {s : Session} {input : List UInt8} (hp : (reading s input).Sound)
    (status : Nat) :
    Relation.ReflTransGen (Step language) (reading s input) (ended status) ↔
      status = (reading s input).verdict language := by
  constructor
  · intro hrun
    exact (hp.run hrun).2
  · rintro rfl
    obtain ⟨status, hends⟩ := reading_ends language hp.1 input
    have hsame : status = (reading s input).verdict language := (hp.run hends).2
    rwa [← hsame]

end Language

end Process

/-! ### The status by the messages -/

namespace Program

open Process (statusOf)

theorem status_serve (input : List UInt8) :
    (serve input).value.1.status =
      statusOf ((Session.fresh .unlimited).serveFrom .builtin none input).value := rfl

theorem ending_run {openLog : String → Option OpenFailure} {tag : String} {env : Environment}
    {args : List String} {input : List UInt8}
    (hlog : (run openLog tag env args input).logging.isSome = true) :
    (run openLog tag env args input).ending = (serve input).value.1 := by
  unfold run at hlog ⊢
  cases hargs : Options.read args with
  | error stop => simp only [hargs] at hlog; cases hlog
  | ok options =>
    simp only [hargs] at hlog ⊢
    cases hfilter : LogFilter.ofText? (options.logConfig tag env).level with
    | none => simp only [hfilter] at hlog; cases hlog
    | some filter =>
      cases hopen : (options.logConfig tag env).file.bind openLog with
      | none => rfl
      | some failure => simp only [hfilter, hopen] at hlog; cases hlog

theorem status_of_exit {input exit : List UInt8} {before after : List (List UInt8)}
    (hbodies : (Frame.readAll none input).1 = before ++ exit :: after)
    (hbefore : ∀ body ∈ before, Request.asks "exit" body = false)
    (hexit : Request.asks "exit" exit = true) :
    (serve input).value.1.status = if before.any (Request.asks "shutdown") then 0 else 1 := by
  obtain ⟨hidle, harmed⟩ := Session.handleAll_exit .builtin hbefore hexit
  have hsplit : (Frame.readAll none input).1 = (before ++ [exit]) ++ after := by
    rw [hbodies, List.append_assoc]
    rfl
  obtain ⟨rest, hdelivers, -⟩ := Frame.delivers_of_readAll hsplit
  rw [status_serve, Session.serveFrom_of_delivers .builtin Session.lossless_fresh hdelivers
    (by rw [hidle]; rfl) (by rw [harmed]; rfl), Process.statusOf_armed (by rw [harmed]; rfl),
    harmed]
  cases before.any (Request.asks "shutdown") <;> rfl

theorem status_without_exit {input : List UInt8}
    (hbodies : ∀ body ∈ (Frame.readAll none input).1, Request.asks "exit" body = false) :
    (serve input).value.1.status = if (Frame.readAll none input).2.isSome then 1 else 0 := by
  have hsignal := (Session.handleAll_without_exit .builtin Session.lossless_fresh hbodies).1
  have hidle : (Session.handleAll .builtin (.fresh .unlimited)
      (Frame.readAll none input).1).handler.signal.isArmed = false := by
    rw [hsignal]
    rfl
  rw [status_serve, Session.serveFrom_of_idle .builtin Session.lossless_fresh input hidle]
  cases (Frame.readAll none input).2 with
  | none => exact Process.statusOf_idle hidle
  | some e => exact Process.statusOf_error _ e

/-- **The status of the process.** If a message asks to exit, the status is zero if one before the
first of these asks to shut down, and one otherwise. If none does, it is one if the framing of the
input breaks off and zero at a clean end. What the signal records does not change once it is armed,
and whichever of the two tasks ends the process, it ends it with this status. -/
theorem status_run (openLog : String → Option OpenFailure) (tag : String) (env : Environment)
    (args : List String) (input : List UInt8)
    (hlog : (run openLog tag env args input).logging.isSome = true) :
    (∀ before exit after, (Frame.readAll none input).1 = before ++ exit :: after →
      (∀ body ∈ before, Request.asks "exit" body = false) → Request.asks "exit" exit = true →
      (run openLog tag env args input).ending.status =
        if before.any (Request.asks "shutdown") then 0 else 1) ∧
    ((∀ body ∈ (Frame.readAll none input).1, Request.asks "exit" body = false) →
      (run openLog tag env args input).ending.status =
        if (Frame.readAll none input).2.isSome then 1 else 0) ∧
    (∀ before after clean,
      (Session.handleAll .builtin (.fresh .unlimited) before).handler.signal = .armed clean →
      (Session.handleAll .builtin (.fresh .unlimited) (before ++ after)).handler.signal =
        .armed clean) ∧
    ∀ status, Relation.ReflTransGen (Process.Step .builtin)
        (.reading (.fresh .unlimited) input) (.ended status) ↔
      status = (run openLog tag env args input).ending.status := by
  rw [ending_run hlog]
  refine ⟨fun before exit after => status_of_exit, status_without_exit, ?_, ?_⟩
  · intro before after clean harmed
    rw [Session.handleAll_append]
    exact Session.handleAll_armed .builtin (Session.lossless_fresh.handleAll .builtin before)
      harmed after
  · exact Process.reaches_ended_iff .builtin ⟨Session.lossless_fresh, rfl⟩

/-- A request to shut down, and a notification to exit. -/
def goodbye : List (List UInt8) :=
  [Text.Utf8.ofString "\x7b\"method\":\"shutdown\",\"id\":1\x7d",
   Text.Utf8.ofString "\x7b\"method\":\"exit\"\x7d"]

/-- A shutdown and then an exit end the process well. -/
theorem status_run_goodbye :
    (run (fun _ => none) "7" (fun _ => none) [] (goodbye.flatMap Frame.encode)).logging.isSome =
        true ∧
      (run (fun _ => none) "7" (fun _ => none) [] (goodbye.flatMap Frame.encode)).ending.status =
        0 := by
  have hsize : ∀ body ∈ goodbye, body.length ≤ FramingError.maxBody := by decide +kernel
  have hbodies : (Frame.readAll none (goodbye.flatMap Frame.encode)).1 = goodbye :=
    congrArg Prod.fst (Frame.readAll_flatMap_encode hsize)
  have hbefore : Request.asks "exit" (goodbye.getD 0 []) = false := by decide +kernel
  have hexit : Request.asks "exit" (goodbye.getD 1 []) = true := by decide +kernel
  have hclean : Request.asks "shutdown" (goodbye.getD 0 []) = true := by decide +kernel
  have hstatus := (status_run (fun _ => none) "7" (fun _ => none) []
    (goodbye.flatMap Frame.encode) rfl).1 [goodbye.getD 0 []] (goodbye.getD 1 []) [] hbodies
    (List.forall_mem_singleton.mpr hbefore) hexit
  refine ⟨rfl, ?_⟩
  rw [hstatus, List.any_cons, hclean]
  rfl

end Program

end LanguageServer
