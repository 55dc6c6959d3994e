import LanguageServer.Proofs.Script.Grammar
import Mathlib.Tactic.SplitIfs

/-! # Strata as strengths

The parser knows no strata, only the strengths of operators. A stratum has the left strength
`lower` and the right strength `upper` of its operators, and `Stratum.above floor` is the loosest
stratum whose operators have a left strength of at least `floor`: what `expression` reads with that
floor.

* `strength?_eq_of_mem`, `strength?_cases`: the strengths of the operators of a stratum, and that
  the operators of the strata and the power are all infix operators;
* `Binds limit ts`: an infix operator of at least the given left strength comes next, and
  `rank_le_of_lower_lt` what that says of strata;
* `plain`: what was read and what is left, without the bound on the rest. -/

namespace LanguageServer.Script

namespace Stratum

/-- The left strength of the operators of a stratum. -/
def lower : Stratum → Nat
  | power => 14
  | sign | primary => Operator.signStrength
  | s => 2 * s.rank + 1

/-- The right strength of the operators of a stratum. -/
def upper : Stratum → Nat
  | power => 13
  | sign | primary => Operator.signStrength
  | s => 2 * s.rank + 2

/-- The loosest stratum whose operators have a left strength of at least `floor`. -/
def above (floor : Nat) : Stratum :=
  if floor ≤ 1 then disjunction
  else if floor ≤ 3 then conjunction
  else if floor ≤ 5 then equality
  else if floor ≤ 7 then comparison
  else if floor ≤ 9 then sum
  else if floor ≤ 11 then product
  else if floor ≤ 14 then power
  else sign

theorem lower_le_tighter (s : Stratum) : s.lower ≤ s.tighter.lower := by cases s <;> decide

theorem upper_le_tighter (s : Stratum) : s.upper ≤ s.tighter.upper := by cases s <;> decide

theorem strength?_eq_of_mem {s : Stratum} {op : Operator} (h : op ∈ s.operators) :
    op.strength? = some (s.lower, s.upper) := by
  revert op
  cases s <;> decide

/-- A right operand of a stratum is read with a floor that the next stratum reaches. -/
theorem upper_le_lower_tighter {s : Stratum} {op : Operator} (h : op ∈ s.operators) :
    s.lower < s.upper ∧ s.upper ≤ s.tighter.lower := by
  revert op
  cases s <;> decide

theorem above_upper {s : Stratum} {op : Operator} (h : op ∈ s.operators) :
    above s.upper = s.tighter := by
  revert op
  cases s <;> decide

/-- **Every infix operator** is one of a stratum that associates to the left, or the power. -/
theorem strength?_cases {op : Operator} {l r : Nat} (h : op.strength? = some (l, r)) :
    (∃ s : Stratum, op ∈ s.operators ∧ l = s.lower ∧ r = s.upper) ∨
      (op = .power ∧ l = power.lower ∧ r = power.upper) := by
  cases op <;> cases h
  case or => exact Or.inl ⟨disjunction, by decide, rfl, rfl⟩
  case and => exact Or.inl ⟨conjunction, by decide, rfl, rfl⟩
  case equal | notEqual => exact Or.inl ⟨equality, by decide, rfl, rfl⟩
  case less | lessEqual | greater | greaterEqual => exact Or.inl ⟨comparison, by decide, rfl, rfl⟩
  case plus | minus => exact Or.inl ⟨sum, by decide, rfl, rfl⟩
  case times | divide | remainder => exact Or.inl ⟨product, by decide, rfl, rfl⟩
  case power => exact Or.inr ⟨rfl, rfl, rfl⟩

theorem rank_above_le {s : Stratum} {floor : Nat} (h : floor ≤ s.lower) :
    (above floor).rank ≤ s.rank := by
  have hs : s.lower ≤ 2 * s.rank + 1 ∨ s.rank = 6 ∧ s.lower = 14 := by cases s <;> decide
  generalize s.rank = n at hs ⊢
  unfold above
  split_ifs <;> simp only [rank] <;> omega

theorem rank_le_of_lower_lt {s s' : Stratum} (h : s'.lower < s.upper) : s'.rank ≤ s.rank := by
  have hs : s.upper ≤ 2 * s.rank + 2 := by cases s <;> decide
  have hs' : 2 * s'.rank + 1 ≤ s'.lower ∨ s' = primary := by cases s' <;> decide
  rcases hs' with hs' | rfl
  · omega
  · cases s <;> simp only [lower, upper, rank, Operator.signStrength] at h <;> omega

theorem rank_sign_le {s : Stratum} (h : power.lower < s.upper) : sign.rank ≤ s.rank := by
  revert h
  cases s <;> decide

end Stratum

/-! ### Tokens and their kinds -/

theorem exists_of_kinds_cons {ts : List Token} {k : Token.Kind} {ks : List Token.Kind}
    (h : ts.map Token.kind = k :: ks) :
    ∃ span rest, ts = ⟨k, span⟩ :: rest ∧ rest.map Token.kind = ks := by
  obtain ⟨⟨_, span⟩, rest, rfl, rfl, hks⟩ := List.map_eq_cons_iff.mp h
  exact ⟨span, rest, rfl, hks⟩

theorem exists_of_kinds_singleton {ts : List Token} {k : Token.Kind}
    (h : ts.map Token.kind = [k]) : ∃ span, ts = [⟨k, span⟩] := by
  obtain ⟨span, rest, rfl, hnil⟩ := exists_of_kinds_cons h
  exact ⟨span, by rw [List.map_eq_nil_iff.mp hnil]⟩

/-! ### What comes next -/

/-- The next token is an infix operator with a left strength of at least `limit`. -/
def Binds (limit : Nat) (ts : List Token) : Prop :=
  ∃ op span rest l r, ts = ⟨.operator op, span⟩ :: rest ∧ op.strength? = some (l, r) ∧ limit ≤ l

/-- The next token makes a call of a name that stands before it. -/
def Applies (ts : List Token) : Prop :=
  ∃ span rest, ts = ⟨.openParen, span⟩ :: rest ∨ ts = ⟨.dot, span⟩ :: rest

theorem Binds.mono {limit limit' : Nat} {ts : List Token} (h : Binds limit' ts)
    (hl : limit ≤ limit') : Binds limit ts := by
  obtain ⟨op, span, rest, l, r, hts, hop, hle⟩ := h
  exact ⟨op, span, rest, l, r, hts, hop, Nat.le_trans hl hle⟩

theorem not_binds_sign (ts : List Token) : ¬ Binds Operator.signStrength ts := by
  rintro ⟨op, -, -, l, r, -, hop, hle⟩
  cases op <;> cases hop <;> exact absurd hle (by decide)

/-! ### Readings without their bound -/

section Plain
variable {α : Type} {bound : Nat}

/-- What was read and what is left, without the bound on the rest. -/
def plain (r : Reading α bound) : Except ParseError (α × List Token) := r.map Taken.pair

@[simp] theorem plain_ok (t : Taken Token α bound) :
    plain (.ok t : Reading α bound) = .ok (t.value, t.rest) := rfl

/-- A reading that gives a value gives it with a bound. -/
theorem exists_of_plain_eq_ok {r : Reading α bound} {value : α} {rest : List Token}
    (h : plain r = .ok (value, rest)) : ∃ hle, r = .ok ⟨value, rest, hle⟩ := by
  cases r with
  | error e => cases h
  | ok t => cases h; exact ⟨t.le_bound, rfl⟩

end Plain

end LanguageServer.Script
