import LanguageServer.Proofs.Script.Machine
import LanguageServer.Proofs.Script.Sound

/-! # Runs of the machine with a cursor

Where the cursor stands before some tokens, the machine may do what a reader does that is given
these tokens: it ends as the reader does, with the cursor before what the reader leaves. On the way
the cursor is always before a token, at most as many expressions are open as may be, and each
expression that is read takes a token and closes what it opened. This is kept when one piece of the
machine follows another.

* `Before`: the tokens before which the cursor stands;
* `Run`, `Goes`: what the machine does, whatever happened before;
* `Follows`: that it does what a reader does;
* `Follows.bind`, `Follows.andThen`, `Follows.map`: one piece after another;
* `Follows.peek`, `Follows.advance`, `expect_follows`: the steps of the machine;
* `Follows.deeper`: an expression is opened and closed again. -/

namespace LanguageServer.Script.Machine

variable {α β : Type} {ts rest : List Token} {c : Cursor} {t : Token}

/-! ### Where the cursor stands -/

/-- **The cursor stands before the tokens `rest`,** which are not all taken, and not too many
expressions are open. -/
structure Before (ts : List Token) (c : Cursor) (rest : List Token) : Prop where
  pos_lt : c.pos < ts.length
  depth_le : c.depth ≤ maxNesting
  drop_eq : ts.drop c.pos = rest

theorem Before.length_eq (h : Before ts c rest) : c.pos + rest.length = ts.length := by
  have hlt := h.pos_lt
  rw [← h.drop_eq, List.length_drop]
  omega

theorem Before.exists_cons (h : Before ts c rest) : ∃ t after, rest = t :: after := by
  have hlength := h.length_eq
  have hlt := h.pos_lt
  exact List.exists_cons_of_length_pos (by omega)

theorem Before.not_length_le_zero (h : Before ts c rest) : ¬ rest.length ≤ 0 := by
  obtain ⟨t, after, rfl⟩ := h.exists_cons
  exact Nat.not_succ_le_zero _

theorem Before.length_le {least : Nat} {rest' : List Token} {c' : Cursor} (h : Before ts c rest)
    (h' : Before ts c' rest') (hmoved : c.pos + least ≤ c'.pos) :
    rest'.length + least ≤ rest.length := by
  have hlength := h.length_eq
  have hlength' := h'.length_eq
  omega

theorem Before.finished (hts : Finished ts) (h : Before ts c rest) : Finished rest := by
  have hall : ts.take c.pos ++ rest = ts := by rw [← h.drop_eq, List.take_append_drop]
  obtain ⟨t, after, rfl⟩ := h.exists_cons
  exact (hall.symm ▸ hts).of_append (List.cons_ne_nil t after)

theorem Before.next (hts : Finished ts) (h : Before ts c (t :: rest)) (ht : t.kind ≠ .finish) :
    Before ts ⟨c.pos + 1, c.depth⟩ rest := by
  obtain ⟨front, span, hrest, -⟩ := (h.finished hts).tail ht
  have hlength := h.length_eq
  refine ⟨?_, h.depth_le, ?_⟩
  · rw [hrest] at hlength
    simp only [List.length_cons, List.length_append] at hlength ⊢
    omega
  · have hdrop := congrArg (List.drop 1) h.drop_eq
    rwa [List.drop_drop] at hdrop

theorem Before.eq_last (hts : Finished ts) (h : Before ts c (t :: rest)) (ht : t.kind = .finish) :
    t :: rest = ts.drop (ts.length - 1) := by
  obtain ⟨_, span⟩ := t
  obtain rfl := ht
  have hrest := (h.finished hts).eq_nil
  have hlength := h.length_eq
  rw [hrest, List.length_singleton] at hlength
  have hpos : c.pos = ts.length - 1 := by omega
  rw [← h.drop_eq, hpos]

/-! ### What a run does -/

/-- What may happen: the cursor stands before a token, with no more expressions open than may be; an
expression takes a token and leaves as many open as before. -/
def Event.Sound (ts : List Token) : Event → Prop
  | .stands c => c.pos < ts.length ∧ c.depth ≤ maxNesting
  | .reads before after => before.pos < after.pos ∧ after.depth = before.depth

theorem Before.sound (h : Before ts c rest) : (Event.stands c).Sound ts := ⟨h.pos_lt, h.depth_le⟩

/-- A run of the machine: the value it gives, or its complaint, where it leaves the cursor, and what
happens in it, last first. -/
structure Run (α : Type) where
  ending : Except ParseError α
  cursor : Cursor
  events : List Event

/-- From the cursor the machine goes through the run, whatever happened before. -/
def Goes (m : Machine α) (c : Cursor) (run : Run α) : Prop :=
  ∀ past, m.runFrom ⟨c, past⟩ = some (run.ending, ⟨run.cursor, run.events ++ past⟩)

/-- **The run does what a reader does** that is given the tokens before which the cursor stands: it
ends in the same way, before the same tokens. Only sound events happen, as many expressions are open
as before, and if the run gives a value it takes at least `least` of the tokens. -/
structure Run.Follows (ts : List Token) (least : Nat) (c : Cursor)
    (reading : Except ParseError (α × List Token)) (run : Run α) : Prop where
  sound : ∀ event ∈ run.events, event.Sound ts
  pos_lt : run.cursor.pos < ts.length
  depth_eq : run.cursor.depth = c.depth
  reading : run.ending.map (fun a => (a, ts.drop run.cursor.pos)) = reading
  moved : ∀ a, run.ending = .ok a → c.pos + least ≤ run.cursor.pos

/-- From the cursor the machine goes through a run that does what the reader does. -/
def Follows (ts : List Token) (least : Nat) (c : Cursor) (m : Machine α)
    (reading : Except ParseError (α × List Token)) : Prop :=
  ∃ run, Goes m c run ∧ run.Follows ts least c reading

section Steps
variable {least least' : Nat} {reading : Except ParseError (α × List Token)}

theorem Follows.weaken {m : Machine α} (h : Follows ts least c m reading) (hle : least' ≤ least) :
    Follows ts least' c m reading := by
  obtain ⟨run, hrun, hfollows⟩ := h
  refine ⟨run, hrun, { hfollows with moved := fun a ha => ?_ }⟩
  have hmoved := hfollows.moved a ha
  omega

/-- What is said of values says nothing of complaints. -/
theorem Follows.of_error {m : Machine α} {e : ParseError} (h : Follows ts least c m (.error e)) :
    Follows ts least' c m (.error e) := by
  obtain ⟨run, hrun, hfollows⟩ := h
  refine ⟨run, hrun, { hfollows with moved := fun a ha => ?_ }⟩
  have hreading := hfollows.reading
  rw [ha] at hreading
  cases hreading

theorem Follows.pure (h : Before ts c rest) (a : α) :
    Follows ts 0 c (Pure.pure a : Machine α) (.ok (a, rest)) := by
  refine ⟨⟨.ok a, c, []⟩, fun _ => rfl, nofun, h.pos_lt, rfl, ?_, fun _ _ => Nat.le_refl _⟩
  rw [← h.drop_eq]
  rfl

theorem Follows.complain (h : Before ts c rest) (e : ParseError) :
    Follows ts least c (throw e : Machine α) (.error e) :=
  ⟨⟨.error e, c, []⟩, fun _ => rfl, nofun, h.pos_lt, rfl, rfl, nofun⟩

theorem Goes.bind {m : Machine β} {k : β → Machine α} {b : β} {c' : Cursor} {events : List Event}
    {run : Run α} (hm : Goes m c ⟨.ok b, c', events⟩) (hk : Goes (k b) c' run) :
    Goes (m >>= k) c { run with events := run.events ++ events } := by
  intro past
  rw [runFrom_bind_ok (hm past), hk, List.append_assoc]

theorem Follows.step {m : Machine β} {k : β → Machine α} {b : β} {c' : Cursor}
    {events : List Event} (hm : Goes m c ⟨.ok b, c', events⟩)
    (hsound : ∀ event ∈ events, event.Sound ts) (hdepth : c'.depth = c.depth)
    (hmoved : c.pos + least ≤ c'.pos) (h : Follows ts least' c' (k b) reading) :
    Follows ts (least + least') c (m >>= k) reading := by
  obtain ⟨run, hrun, hfollows⟩ := h
  refine ⟨_, hm.bind hrun, ?_, hfollows.pos_lt, hfollows.depth_eq.trans hdepth,
    hfollows.reading, ?_⟩
  · exact List.forall_mem_append.mpr ⟨hfollows.sound, hsound⟩
  · intro a ha
    have hrest := hfollows.moved a ha
    simp only
    omega

/-- **One piece of the machine after the other.** -/
theorem Follows.bind {m : Machine β} {k : β → Machine α}
    {first : Except ParseError (β × List Token)}
    {g : β × List Token → Except ParseError (α × List Token)} (hc : Before ts c rest)
    (h : Follows ts least c m first)
    (hk : ∀ b c' rest', first = .ok (b, rest') → Before ts c' rest' → c'.depth = c.depth →
      c.pos + least ≤ c'.pos → Follows ts 0 c' (k b) (g (b, rest'))) :
    Follows ts least c (m >>= k) (first.bind g) := by
  obtain ⟨⟨ending, after, events⟩, hrun, hsound, hpos, hdepth, hreading, hmoved⟩ := h
  obtain rfl := hreading
  cases ending with
  | error e =>
    exact ⟨⟨.error e, after, events⟩, fun past => runFrom_bind_error (hrun past), hsound, hpos,
      hdepth, rfl, nofun⟩
  | ok b =>
    have hbefore : Before ts after (ts.drop after.pos) := ⟨hpos, hdepth ▸ hc.depth_le, rfl⟩
    exact .step hrun hsound hdepth (hmoved b rfl) (hk b after _ rfl hbefore hdepth (hmoved b rfl))

theorem Follows.stay {m : Machine β} {k : β → Machine α} {b : β} {events : List Event}
    (hm : Goes m c ⟨.ok b, c, events⟩) (hsound : ∀ event ∈ events, event.Sound ts)
    (h : Follows ts least c (k b) reading) : Follows ts least c (m >>= k) reading := by
  have hstay : c.pos + 0 ≤ c.pos := Nat.le_refl _
  have hstep := Follows.step hm hsound rfl hstay h
  rwa [Nat.zero_add] at hstep

/-! ### The steps of the machine -/

theorem Follows.here {k : Cursor → Machine α} (hk : Follows ts least c (k c) reading) :
    Follows ts least c (Machine.here >>= k) reading :=
  .stay (fun _ => runFrom_here _) (List.forall_mem_nil _) hk

theorem peek_goes (h : Before ts c (t :: rest)) : Goes (peek ts) c ⟨.ok t, c, [.stands c]⟩ := by
  -- the place is that of a token, so it is not held down
  have hmin : min c.pos (ts.length - 1) = c.pos := by
    have hlt := h.pos_lt
    omega
  have hget : ts[c.pos]? = some t := by rw [← List.head?_drop, h.drop_eq, List.head?_cons]
  intro past
  rw [peek, runFrom_bind_ok (runFrom_here _), runFrom_bind_ok (runFrom_note _ _), hmin, hget]
  rfl

theorem Follows.peek {k : Token → Machine α} (h : Before ts c (t :: rest))
    (hk : Follows ts least c (k t) reading) : Follows ts least c (Machine.peek ts >>= k) reading :=
  .stay (peek_goes h) (List.forall_mem_singleton.mpr h.sound) hk

theorem Follows.advance {k : Token → Machine α} (hts : Finished ts) (h : Before ts c (t :: rest))
    (ht : t.kind ≠ .finish) (hk : Follows ts 0 ⟨c.pos + 1, c.depth⟩ (k t) reading) :
    Follows ts 1 c (Machine.advance ts >>= k) reading := by
  have hnext := h.next hts ht
  have hrun : Goes (Machine.advance ts) c
      ⟨.ok t, ⟨c.pos + 1, c.depth⟩, [.stands ⟨c.pos + 1, c.depth⟩, .stands c]⟩ := by
    intro past
    rw [Machine.advance, runFrom_bind_ok (peek_goes h past), if_neg ht]
    rfl
  have hmoved : c.pos + 1 ≤ (⟨c.pos + 1, c.depth⟩ : Cursor).pos := Nat.le_refl _
  refine .step hrun ?_ rfl hmoved hk
  exact List.forall_mem_cons.mpr ⟨hnext.sound, List.forall_mem_singleton.mpr h.sound⟩

theorem Follows.advance_finish {k : Token → Machine α} (h : Before ts c (t :: rest))
    (ht : t.kind = .finish) (hk : Follows ts least c (k t) reading) :
    Follows ts least c (Machine.advance ts >>= k) reading := by
  have hrun : Goes (Machine.advance ts) c ⟨.ok t, c, [.stands c]⟩ := by
    intro past
    rw [Machine.advance, runFrom_bind_ok (peek_goes h past), if_pos ht]
    rfl
  exact .stay hrun (List.forall_mem_singleton.mpr h.sound) hk

theorem Follows.advance_complain {k : Token → Machine α} {e : ParseError} (hts : Finished ts)
    (h : Before ts c (t :: rest)) (hk : k t = throw e) :
    Follows ts least c (Machine.advance ts >>= k) (.error e) := by
  by_cases ht : t.kind = .finish
  · exact .advance_finish h ht (hk ▸ .complain h e)
  · exact (Follows.advance hts h ht (hk ▸ .complain (h.next hts ht) e)).of_error

theorem Follows.andThen {m : Machine β} {k : β → Machine α} {b : β} {rest' : List Token}
    (hc : Before ts c rest) (h : Follows ts least c m (.ok (b, rest')))
    (hk : ∀ c', Before ts c' rest' → c'.depth = c.depth → c.pos + least ≤ c'.pos →
      Follows ts 0 c' (k b) reading) : Follows ts least c (m >>= k) reading := by
  refine Follows.bind (g := fun _ => reading) hc h ?_
  rintro _ c' _ ⟨⟩ hc' hdepth hmoved
  exact hk c' hc' hdepth hmoved

theorem Follows.map {m : Machine β} {first : Except ParseError (β × List Token)} {f : β → α}
    (hc : Before ts c rest) (h : Follows ts least c m first) :
    Follows ts least c (m >>= fun b => Pure.pure (f b)) (first.map fun b => (f b.1, b.2)) := by
  have hmap : (first.map fun b => (f b.1, b.2)) = first.bind fun b => .ok (f b.1, b.2) := by
    cases first <;> rfl
  rw [hmap]
  exact Follows.bind hc h fun b _ _ _ hc' _ _ => .pure hc' (f b)

theorem expect_follows {kind : Token.Kind} {span : Span} (fault : Fault) (hts : Finished ts)
    (h : Before ts c (⟨kind, span⟩ :: rest)) (hkind : kind ≠ .finish) :
    Follows ts 1 c (expect ts kind fault) (.ok (span, rest)) := by
  refine Follows.advance hts h hkind ?_
  rw [if_pos rfl]
  exact .pure (h.next hts hkind) span

end Steps

/-! ### One more expression -/

/-- The run with one more expression open, and what happens around it. -/
def Run.enclosed (c : Cursor) (run : Run Expr) : Run Expr :=
  let after : Cursor := ⟨run.cursor.pos, run.cursor.depth - 1⟩
  let read : List Event := match run.ending with
    | .ok _ => [.reads c after]
    | .error _ => []
  ⟨run.ending, after, read ++ .stands after :: (run.events ++ [.stands ⟨c.pos, c.depth + 1⟩])⟩

section Deeper
variable {m : Machine Expr} {run : Run Expr} {reading : Except ParseError (Expr × List Token)}

theorem Goes.deeper (hrun : Goes m ⟨c.pos, c.depth + 1⟩ run) :
    Goes (deeper m) c (run.enclosed c) := by
  intro past
  rw [Machine.deeper, runFrom_bind_ok (runFrom_here _), runFrom_bind_ok (runFrom_goTo _ _),
    runFrom_bind_ok (runFrom_attempt (hrun _)), runFrom_bind_ok (runFrom_here _),
    runFrom_bind_ok (runFrom_goTo _ _)]
  obtain ⟨ending, inside, events⟩ := run
  cases ending with
  | error e =>
    simp only [Run.enclosed, List.nil_append, List.cons_append, List.append_assoc]
    rfl
  | ok e =>
    simp only [Run.enclosed, List.cons_append, List.append_assoc]
    exact runFrom_bind_ok (runFrom_note _ _)

theorem Run.Follows.enclosed (h : Before ts c rest) (hopen : c.depth < maxNesting)
    (hrun : run.Follows ts 1 ⟨c.pos, c.depth + 1⟩ reading) :
    (run.enclosed c).Follows ts 1 c reading := by
  obtain ⟨ending, inside, events⟩ := run
  obtain ⟨hsound, hpos, hdepth, hreading, hmoved⟩ := hrun
  simp only at hpos hdepth hmoved
  -- the counter was raised before, so lowering it does not stop at zero
  have hclosed : inside.depth - 1 = c.depth := by omega
  have hafter : (Event.stands ⟨inside.pos, inside.depth - 1⟩).Sound ts :=
    ⟨hpos, hclosed ▸ h.depth_le⟩
  refine ⟨?_, hpos, hclosed, hreading, hmoved⟩
  refine List.forall_mem_append.mpr ⟨?_, List.forall_mem_cons.mpr ⟨hafter, ?_⟩⟩
  · cases ending with
    | error e => exact nofun
    | ok e => exact List.forall_mem_singleton.mpr ⟨hmoved e rfl, hclosed⟩
  · exact List.forall_mem_append.mpr ⟨hsound, List.forall_mem_singleton.mpr ⟨h.pos_lt, hopen⟩⟩

/-- **What is opened is closed again,** and an expression that is read has taken a token. -/
theorem Follows.deeper (h : Before ts c rest) (hopen : c.depth < maxNesting)
    (hm : Follows ts 1 ⟨c.pos, c.depth + 1⟩ m reading) :
    Follows ts 1 c (Machine.deeper m) reading := by
  obtain ⟨run, hrun, hfollows⟩ := hm
  exact ⟨_, hrun.deeper, hfollows.enclosed h hopen⟩

end Deeper

end LanguageServer.Script.Machine
