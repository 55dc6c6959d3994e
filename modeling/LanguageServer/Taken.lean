/-! # Reading off the front of a list

A reader takes items off the front of a list and returns a value and what is left. `Taken` holds
both, with the bound on the length of the rest that lets a loop over readers terminate; the facts on
lengths carry such bounds from a list to its rest. -/

namespace LanguageServer

section Length

variable {τ : Type} {a : τ} {l m : List τ} {bound : Nat}

theorem length_le_self (l : List τ) : l.length ≤ l.length := Nat.le_refl _

theorem tail_le (h : (a :: l).length ≤ bound) : l.length ≤ bound := Nat.le_of_succ_le h

theorem tail_le_length (h : (a :: l).length ≤ m.length) : l.length ≤ m.length :=
  Nat.le_of_succ_le h

end Length

/-- A value read off the front of a list, and the rest of it, which has at most `bound` items. -/
structure Taken (τ α : Type) (bound : Nat) where
  value : α
  rest : List τ
  le_bound : rest.length ≤ bound

namespace Taken

variable {τ α β : Type} {bound : Nat}

/-- The value and the rest, without the bound. -/
def pair (t : Taken τ α bound) : α × List τ := (t.value, t.rest)

/-- The same reading under a larger bound. -/
def widen (t : Taken τ α bound) {limit : Nat} (h : bound ≤ limit) : Taken τ α limit :=
  ⟨t.value, t.rest, Nat.le_trans t.le_bound h⟩

/-- The same rest with another value. -/
def map (f : α → β) (t : Taken τ α bound) : Taken τ β bound :=
  ⟨f t.value, t.rest, t.le_bound⟩

theorem le_length {l : List τ} (t : Taken τ α l.length) : t.rest.length ≤ l.length := t.le_bound

theorem rest_le {l : List τ} (t : Taken τ α l.length) (h : l.length ≤ bound) :
    t.rest.length ≤ bound := Nat.le_trans t.le_bound h

end Taken

end LanguageServer
