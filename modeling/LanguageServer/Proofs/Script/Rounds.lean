import LanguageServer.Proofs.Script.Machine

/-! # More rounds give the same

The rounds only bound what the machine does. What it gives within some rounds it gives within more,
after the same events, so a run within some rounds is the run of the loops without a bound.

* `Below`: one machine gives whatever another does;
* `Below.bind`, `Below.deeper`: pieces of machines;
* `arguments_below`, `infixes_below`, `expression_below`, `statements_below`: by induction on the
  rounds. -/

namespace LanguageServer.Script.Machine

variable {α β : Type}

/-- **Whatever the first machine gives, the second gives too.** -/
def Below (m m' : Machine α) : Prop :=
  ∀ ⦃s : State⦄ ⦃out : Except ParseError α × State⦄,
    m.runFrom s = some out → m'.runFrom s = some out

theorem Below.refl (m : Machine α) : Below m m := fun _ _ h => h

theorem unfinished_below (m : Machine α) : Below unfinished m := nofun

theorem Below.bind {m m' : Machine β} {k k' : β → Machine α} (hm : Below m m')
    (hk : ∀ b, Below (k b) (k' b)) : Below (m >>= k) (m' >>= k') := by
  intro s out h
  cases hrun : m.runFrom s with
  | none =>
    rw [runFrom_bind_none hrun] at h
    cases h
  | some first =>
    obtain ⟨ending, s'⟩ := first
    cases ending with
    | error e =>
      rw [runFrom_bind_error hrun] at h
      rw [runFrom_bind_error (hm hrun), h]
    | ok b =>
      rw [runFrom_bind_ok hrun] at h
      rw [runFrom_bind_ok (hm hrun)]
      exact hk b h

theorem Below.attempt {m m' : Machine α} (h : Below m m') : Below (attempt m) (attempt m') := by
  intro s out hout
  cases hrun : m.runFrom s with
  | none =>
    rw [runFrom_attempt_none hrun] at hout
    cases hout
  | some first =>
    rw [runFrom_attempt hrun] at hout
    rw [runFrom_attempt (h hrun), hout]

theorem Below.deeper {m m' : Machine Expr} (h : Below m m') : Below (deeper m) (deeper m') :=
  .bind (.refl _) fun _ => .bind (.refl _) fun _ => .bind h.attempt fun _ => .refl _

theorem exists_of_succ_le {m n : Nat} (h : m + 1 ≤ n) : ∃ k, n = k + 1 ∧ m ≤ k := by
  cases n with
  | zero => exact absurd h (Nat.not_succ_le_zero m)
  | succ k => exact ⟨k, rfl, Nat.le_of_succ_le_succ h⟩

section Rounds
variable {ts : List Token} {rounds rounds' : Nat}

section Nested
variable {nested nested' : Nat → Machine Expr}

theorem arguments_below (hnested : ∀ floor, Below (nested floor) (nested' floor))
    (hle : rounds ≤ rounds') (read : List Expr) :
    Below (arguments ts nested rounds read) (arguments ts nested' rounds' read) := by
  induction rounds generalizing rounds' read with
  | zero => exact unfinished_below _
  | succ rounds ih =>
    obtain ⟨rounds', rfl, hless⟩ := exists_of_succ_le hle
    refine .bind (hnested 0) fun arg => .bind (.refl _) fun next => ?_
    split
    · exact .bind (.refl _) fun _ => ih hless _
    · exact .refl _

theorem call_below (hnested : ∀ floor, Below (nested floor) (nested' floor))
    (hle : rounds ≤ rounds') (callee : Callee) (start : Span) :
    Below (call ts nested rounds callee start) (call ts nested' rounds' callee start) := by
  refine .bind (.refl _) fun _ => .bind (.refl _) fun next => ?_
  split
  · exact .refl _
  · exact .bind (arguments_below hnested hle []) fun _ => .refl _

theorem named_below (hnested : ∀ floor, Below (nested floor) (nested' floor))
    (hle : rounds ≤ rounds') (name : String) (span : Span) :
    Below (named ts nested rounds name span) (named ts nested' rounds' name span) := by
  refine .bind (.refl _) fun next => ?_
  obtain ⟨kind, place⟩ := next
  cases kind with
  | openParen => exact call_below hnested hle _ _
  | dot =>
    refine .bind (.refl _) fun _ => .bind (.refl _) fun member => ?_
    obtain ⟨kind, place⟩ := member
    cases kind with
    | identifier memberName =>
      refine .bind (.refl _) fun paren => ?_
      split
      · exact call_below hnested hle _ _
      · exact .refl _
    | _ => exact .refl _
  | _ => exact .refl _

theorem operand_below (hnested : ∀ floor, Below (nested floor) (nested' floor))
    (hle : rounds ≤ rounds') : Below (operand ts nested rounds) (operand ts nested' rounds') := by
  refine .bind (.refl _) fun t => ?_
  obtain ⟨kind, span⟩ := t
  cases kind with
  | identifier name => exact named_below hnested hle _ _
  | operator op =>
    simp only
    split
    · exact .bind (hnested _) fun _ => .refl _
    · exact .refl _
  | openParen => exact .bind (hnested 0) fun _ => .refl _
  | _ => exact .refl _

theorem infixes_below (hnested : ∀ floor, Below (nested floor) (nested' floor))
    (hle : rounds ≤ rounds') (floor : Nat) (left : Expr) :
    Below (infixes ts nested floor rounds left) (infixes ts nested' floor rounds' left) := by
  induction rounds generalizing rounds' left with
  | zero => exact unfinished_below _
  | succ rounds ih =>
    obtain ⟨rounds', rfl, hless⟩ := exists_of_succ_le hle
    refine .bind (.refl _) fun next => ?_
    obtain ⟨kind, span⟩ := next
    cases kind with
    | operator op =>
      simp only
      split
      · exact .refl _
      · split
        · exact .refl _
        · exact .bind (.refl _) fun _ => .bind (hnested _) fun _ =>
            ih hless _
    | _ => exact .refl _

end Nested

theorem expression_below (hle : rounds ≤ rounds') (floor : Nat) :
    Below (expression ts rounds floor) (expression ts rounds' floor) := by
  induction rounds generalizing rounds' floor with
  | zero => exact unfinished_below _
  | succ rounds ih =>
    obtain ⟨rounds', rfl, hless⟩ := exists_of_succ_le hle
    refine .bind (.refl _) fun before => ?_
    split
    · exact .refl _
    · exact .deeper (.bind (operand_below (ih hless) hless) fun left =>
        infixes_below (ih hless) hless floor left)

theorem skipNewlines_below (hle : rounds ≤ rounds') :
    Below (skipNewlines ts rounds) (skipNewlines ts rounds') := by
  induction rounds generalizing rounds' with
  | zero => exact unfinished_below _
  | succ rounds ih =>
    obtain ⟨rounds', rfl, hless⟩ := exists_of_succ_le hle
    refine .bind (.refl _) fun next => ?_
    split
    · exact .bind (.refl _) fun _ => ih hless
    · exact .refl _

/-- **What the statements give within some rounds they give within more.** -/
theorem statements_below (hle : rounds ≤ rounds') (read : List Expr) :
    Below (statements ts rounds read) (statements ts rounds' read) := by
  induction rounds generalizing rounds' read with
  | zero => exact unfinished_below _
  | succ rounds ih =>
    obtain ⟨rounds', rfl, hless⟩ := exists_of_succ_le hle
    refine .bind (skipNewlines_below hle) fun _ => .bind (.refl _) fun next => ?_
    split
    · exact .refl _
    · refine .bind (expression_below hle 0) fun statement => .bind (.refl _) fun next => ?_
      split
      · exact ih hless _
      · exact .refl _

end Rounds

end LanguageServer.Script.Machine
