import LanguageServer.Proofs.Document.Names
import LanguageServer.Proofs.Document.Reachable
import LanguageServer.Proofs.Session.Answer

/-! # What methods do to the documents

Whatever method is called, with whatever parameters, the open documents stay as they are or one of
the operations on a store is done to them. So the documents of every state that calls lead to are
freshly opened ones, and no name stands twice.

* `handle_store`: one call;
* `after`, `allFresh_after`: the states of a session. -/

namespace LanguageServer

/-! ### Operations on a store -/

namespace Store

/-- An operation leaves the store as it is or puts one document into it. -/
theorem step_cases (s : Store) (operation : Operation) :
    s.step operation = s ∨ ∃ uri d, s.step operation = s.insert uri d := by
  cases operation with
  | opening uri text version => exact Or.inr ⟨uri, _, rfl⟩
  | changing uri version changes =>
    simp only [Store.step, applyChanges]
    cases hd : s.get? uri with
    | none => exact Or.inl rfl
    | some d =>
      simp only [Logged.value_bind]
      split <;> exact Or.inr ⟨uri, _, rfl⟩
  | closing uri =>
    simp only [Store.step, close]
    cases hd : s.get? uri with
    | none => exact Or.inl rfl
    | some d => exact Or.inr ⟨uri, _, rfl⟩

theorem Distinct.step {s : Store} (h : s.Distinct) (operation : Operation) :
    (s.step operation).Distinct := by
  rcases s.step_cases operation with hstep | ⟨uri, d, hstep⟩
  · rwa [hstep]
  · rw [hstep]
    exact h.insert uri d

theorem contains_step {s : Store} {name : String} (h : s.contains name = true)
    (operation : Operation) : (s.step operation).contains name = true := by
  rcases s.step_cases operation with hstep | ⟨uri, d, hstep⟩
  · rwa [hstep]
  · rw [hstep, contains, get?_insert]
    split
    · rfl
    · exact h

end Store

/-! ### Methods -/

namespace Handler

section Language

variable {α : Type} [Script.Syntactic α] (language : Language α)

/-- **A method leaves the documents as they are or does one operation to them.** -/
theorem handle_store (h : Handler) (method : String) (params : Json) :
    (h.handle language method params).value.1.store = h.store ∨
      ∃ operation, (h.handle language method params).value.1.store = h.store.step operation := by
  unfold handle
  simp only [Logged.value_bind]
  split
  · exact Or.inl rfl
  · exact Or.inl rfl
  · exact Or.inl rfl
  · unfold didOpen
    split
    · exact Or.inl rfl
    · next p _ => exact Or.inr ⟨.opening p.uri p.text p.version, rfl⟩
  · unfold didChange
    split
    · exact Or.inl rfl
    · next p _ => exact Or.inr ⟨.changing p.uri p.version p.changes, rfl⟩
  · unfold didClose
    split
    · exact Or.inl rfl
    · next uri _ => exact Or.inr ⟨.closing uri, rfl⟩
  · exact Or.inl rfl
  · exact Or.inl rfl
  · exact Or.inl rfl
  · exact Or.inl rfl
  · rw [exit_value]
    exact Or.inl rfl
  · exact Or.inl rfl

/-- What every operation on the documents keeps, every method keeps. -/
theorem handle_keeps {P : Store → Prop} (hstep : ∀ s operation, P s → P (s.step operation))
    {h : Handler} (hp : P h.store) (method : String) (params : Json) :
    P (h.handle language method params).value.1.store := by
  rcases handle_store language h method params with hstore | ⟨operation, hstore⟩
  · rw [hstore]
    exact hp
  · rw [hstore]
    exact hstep h.store operation hp

/-! ### States of a session -/

/-- The state after calls of methods with parameters, one after the other, from the start of a
session. -/
def after (calls : List (String × Json)) : Handler :=
  calls.foldl (fun h call => (h.handle language call.1 call.2).value.1) fresh

theorem foldl_keeps {P : Store → Prop} (hstep : ∀ s operation, P s → P (s.step operation))
    {h : Handler} (hp : P h.store) (calls : List (String × Json)) :
    P (calls.foldl (fun h call => (h.handle language call.1 call.2).value.1) h).store := by
  induction calls generalizing h with
  | nil => exact hp
  | cons call calls ih => exact ih (handle_keeps language hstep hp call.1 call.2)

/-- **The documents of every state are freshly opened ones.** -/
theorem allFresh_after (calls : List (String × Json)) : (after language calls).store.AllFresh :=
  foldl_keeps language (fun _ operation h => h.step operation)
    (fun _ _ hmem => absurd hmem List.not_mem_nil) calls

end Language

end Handler

end LanguageServer
