import LanguageServer.Proofs.Script.Walk
import Mathlib.Data.List.Induction

/-! # The narrowest node

Looking for the node at an offset walks over all nodes of a tree, whatever their spans: they may
overlap, stick out of their parents, be empty or end before they start. A walk that is never stopped
folds over the nodes in pre-order, and every step of this fold keeps the node found so far or takes
the next one. What is found at the end can be said without the walk: it is `Chosen`.

* `findAt_eq_foldl`: the walk is such a fold;
* `replaces_iff`: which of two nodes that hold an offset is kept;
* `Chosen.step`: what one step makes of the node found so far;
* `foldl_narrowest_chosen`: all steps, by induction on the nodes from the last to the first;
* `findAt_chosen`: all trees. -/

namespace LanguageServer.Script.Tree

open Syntactic (span)

theorem findAt_eq_foldl {α : Type} [Syntactic α] (index : Nat) (t : Tree α) :
    t.findAt index = t.preorder.foldl (narrowest index) none := by
  rw [findAt, walk_eq_visitEach, visitEach_accepting]

/-! ### Which node is kept -/

theorem replaces_of_inside {s best : Span} (hstart : best.start ≤ s.start)
    (hstop : s.stop ≤ best.stop) : replaces s best = true := by
  have hwithin : s.within best = true := Span.within_iff.mpr ⟨hstart, hstop⟩
  have hwidth : s.width < best.width ∨ s.width = best.width := by
    simp only [Span.width]
    omega
  simpa [replaces, hwithin] using hwidth

/-- **A node that holds an offset takes the place of one that is wider or has the same span.** -/
theorem replaces_iff {s best : Span} {index : Nat} (hs : s.holds index = true) :
    replaces s best = true ↔ s.width < best.width ∨ s = best := by
  rw [Span.holds_iff] at hs
  constructor
  · intro h
    simp only [replaces, Bool.or_eq_true, decide_eq_true_eq, Bool.and_eq_true, beq_iff_eq,
      Span.within_iff] at h
    refine h.imp_right fun ⟨hwidth, hstart, hstop⟩ => ?_
    simp only [Span.width] at hwidth
    have hsame : s.start = best.start ∧ s.stop = best.stop := by omega
    cases s
    cases best
    obtain ⟨rfl, rfl⟩ := hsame
    rfl
  · rintro (hlt | rfl)
    · simp [replaces, hlt]
    · exact replaces_of_inside (Nat.le_refl _) (Nat.le_refl _)

variable {α : Type} [Syntactic α] {index : Nat}

theorem narrowest_of_not_holds {n : α} (h : (span n).holds index = false) (found : Option α) :
    narrowest index found n = found := by
  unfold narrowest
  exact if_neg (Bool.eq_false_iff.mp h)

theorem narrowest_of_holds {n : α} (h : (span n).holds index = true) {found : Option α}
    (hfound : ∀ best ∈ found, replaces (span n) (span best) = true) :
    narrowest index found n = some n := by
  unfold narrowest
  refine (if_pos h).trans ?_
  cases found with
  | none => rfl
  | some best => exact if_pos (hfound best rfl)

theorem narrowest_of_not_replaces {n best : α} (h : ¬ replaces (span n) (span best) = true) :
    narrowest index (some best) n = some best := by
  unfold narrowest
  simp [h]

theorem foldl_narrowest_of_not_holds {ns : List α} (h : ∀ n ∈ ns, (span n).holds index = false)
    (found : Option α) : ns.foldl (narrowest index) found = found := by
  induction ns with
  | nil => rfl
  | cons n ns ih =>
    obtain ⟨hn, hns⟩ := List.forall_mem_cons.mp h
    rw [List.foldl_cons, narrowest_of_not_holds hn, ih hns]

/-! ### What is found -/

/-- **The node `n` is chosen among `ns`:** of the nodes that hold the offset, the narrowest have
width `m`; `first` is the first of these; and `n` is the last node with the span of `first`. -/
structure Chosen (index : Nat) (ns : List α) (m : Nat) (first n : α) : Prop where
  least : ∀ g ∈ ns, (span g).holds index = true → m ≤ (span g).width
  earliest : ns.find? (fun g => (span g).holds index && (span g).width == m) = some first
  latest : ns.findRev? (fun g => span g = span first) = some n

section Chosen
variable {ns : List α} {m : Nat} {first n g : α}

theorem Chosen.holds_first (h : Chosen index ns m first n) : (span first).holds index = true := by
  have hfirst := List.find?_some h.earliest
  rw [Bool.and_eq_true] at hfirst
  exact hfirst.1

theorem Chosen.width_first (h : Chosen index ns m first n) : (span first).width = m := by
  have hfirst := List.find?_some h.earliest
  rw [Bool.and_eq_true, beq_iff_eq] at hfirst
  exact hfirst.2

theorem Chosen.span_eq (h : Chosen index ns m first n) : span n = span first := by
  have hlast := h.latest
  rw [List.findRev?_eq_find?_reverse] at hlast
  have hsame := List.find?_some hlast
  exact of_decide_eq_true hsame

/-- A node that holds the offset and is narrower than those before it is chosen, also if there is
none before it. -/
theorem chosen_of_narrower (hg : (span g).holds index = true)
    (hns : ∀ a ∈ ns, (span a).holds index = true → (span g).width < (span a).width) :
    Chosen index (ns ++ [g]) (span g).width g g := by
  refine ⟨List.forall_mem_append.mpr ⟨?_, ?_⟩, ?_, ?_⟩
  · exact fun a ha hholds => Nat.le_of_lt (hns a ha hholds)
  · exact List.forall_mem_singleton.mpr fun _ => Nat.le_refl _
  · have hnone : ns.find? (fun a => (span a).holds index && (span a).width == (span g).width) =
        none := by
      rw [List.find?_eq_none]
      intro a ha hsame
      rw [Bool.and_eq_true, beq_iff_eq] at hsame
      exact absurd hsame.2 (Nat.ne_of_gt (hns a ha hsame.1))
    simp [List.find?_append, hnone, hg]
  · simp

theorem Chosen.same (h : Chosen index ns m first n) (hg : span g = span first) :
    Chosen index (ns ++ [g]) m first g := by
  refine ⟨List.forall_mem_append.mpr ⟨h.least, ?_⟩, ?_, ?_⟩
  · rw [List.forall_mem_singleton, hg, h.width_first]
    exact fun _ => Nat.le_refl m
  · rw [List.find?_append, h.earliest, Option.some_or]
  · simp [hg]

theorem Chosen.pass (h : Chosen index ns m first n) (hne : span g ≠ span first)
    (hle : (span g).holds index = true → m ≤ (span g).width) :
    Chosen index (ns ++ [g]) m first n := by
  refine ⟨List.forall_mem_append.mpr ⟨h.least, List.forall_mem_singleton.mpr hle⟩, ?_, ?_⟩
  · rw [List.find?_append, h.earliest, Option.some_or]
  · have hlast := h.latest
    rw [List.findRev?_eq_find?_reverse] at hlast
    simpa [hne] using hlast

/-- **One step** from a chosen node comes to a chosen node. -/
theorem Chosen.step (h : Chosen index ns m first n) (g : α) : ∃ m' first' n',
    narrowest index (some n) g = some n' ∧ Chosen index (ns ++ [g]) m' first' n' := by
  by_cases hg : (span g).holds index = true
  · have hreplaces := @replaces_iff (span g) (span n) index hg
    rw [h.span_eq, h.width_first] at hreplaces
    by_cases hkeep : replaces (span g) (span n) = true
    · have htaken : narrowest index (some n) g = some g :=
        narrowest_of_holds hg fun best hbest => by
          cases hbest
          exact hkeep
      rw [h.span_eq] at hkeep
      rcases hreplaces.mp hkeep with hlt | hsame
      · exact ⟨_, g, g, htaken, chosen_of_narrower hg fun a ha hholds =>
          Nat.lt_of_lt_of_le hlt (h.least a ha hholds)⟩
      · exact ⟨m, first, g, htaken, h.same hsame⟩
    · refine ⟨m, first, n, narrowest_of_not_replaces hkeep, ?_⟩
      rw [h.span_eq] at hkeep
      have hother := mt hreplaces.mpr hkeep
      rw [not_or, Nat.not_lt] at hother
      exact h.pass hother.2 fun _ => hother.1
  · refine ⟨m, first, n, narrowest_of_not_holds (Bool.eq_false_iff.mpr hg) _, ?_⟩
    have hne : span g ≠ span first := fun hsame => hg (hsame ▸ h.holds_first)
    exact h.pass hne fun hholds => absurd hholds hg

end Chosen

/-- **The fold over the nodes** finds the chosen one, if some node holds the offset. -/
theorem foldl_narrowest_chosen (index : Nat) (ns : List α) :
    (ns.foldl (narrowest index) none = none ∧ ∀ n ∈ ns, (span n).holds index = false) ∨
      ∃ m first n, ns.foldl (narrowest index) none = some n ∧ Chosen index ns m first n := by
  induction ns using List.reverseRecOn with
  | nil => exact Or.inl ⟨rfl, nofun⟩
  | append_singleton ns g ih =>
    rw [List.foldl_append, List.foldl_cons, List.foldl_nil]
    rcases ih with ⟨hfold, hnone⟩ | ⟨m, first, n, hfold, hn⟩
    · rw [hfold]
      by_cases hg : (span g).holds index = true
      · refine Or.inr ⟨_, g, g, narrowest_of_holds hg nofun, chosen_of_narrower hg ?_⟩
        intro a ha hholds
        rw [hnone a ha] at hholds
        cases hholds
      · rw [Bool.not_eq_true] at hg
        exact Or.inl ⟨narrowest_of_not_holds hg none,
          List.forall_mem_append.mpr ⟨hnone, List.forall_mem_singleton.mpr hg⟩⟩
    · rw [hfold]
      exact Or.inr (hn.step g)

/-! ### All trees -/

/-- **Which node of a tree is found.** None is if and only if no node holds the offset. Otherwise,
of the nodes that hold it the narrowest are looked at, and of these the first in pre-order; the node
found is the last one in pre-order with the span of that. So no node that holds the offset is
narrower than the one found. Nothing is asked of the spans of the nodes. -/
theorem findAt_chosen (t : Tree α) (index : Nat) :
    (t.findAt index = none ↔ ∀ n ∈ t.preorder, (span n).holds index = false) ∧
    ((∃ n ∈ t.preorder, (span n).holds index = true) → ∃ m first n,
      t.findAt index = some n ∧ Chosen index t.preorder m first n ∧
        ∀ g ∈ t.preorder, (span g).holds index = true → (span n).width ≤ (span g).width) := by
  rw [findAt_eq_foldl]
  rcases foldl_narrowest_chosen index t.preorder with ⟨hfold, hnone⟩ | ⟨m, first, n, hfold, hn⟩
  · refine ⟨⟨fun _ => hnone, fun _ => hfold⟩, fun ⟨n, hmem, hholds⟩ => ?_⟩
    rw [hnone n hmem] at hholds
    cases hholds
  · have hfirst := List.mem_of_find?_eq_some hn.earliest
    refine ⟨⟨fun hnone => ?_, fun hnone => ?_⟩, fun _ => ⟨m, first, n, hfold, hn, ?_⟩⟩
    · rw [hfold] at hnone
      cases hnone
    · have hholds := hn.holds_first
      rw [hnone first hfirst] at hholds
      cases hholds
    · rw [hn.span_eq, hn.width_first]
      exact hn.least

/-- Two nodes of one width overlap, and below the next node there is one more with the span of the
first. Other nodes stick out, are empty or end before they start. -/
theorem findAt_chosen_overlapping :
    let node (name : String) (start stop : Nat) (below : List (Tree Expr)) : Tree Expr :=
      .node (.identifier name ⟨start, stop⟩) below
    let t : Tree Expr := node "root" 0 10
      [node "first" 0 4 [node "wide" 1 20 [], node "empty" 3 3 []], node "overlap" 2 6 [],
        node "inverted" 5 1 [node "twin" 0 4 []]]
    let twin : Expr := .identifier "twin" ⟨0, 4⟩
    (∃ n ∈ t.preorder, (span n).holds 3 = true) ∧ t.findAt 3 = some twin ∧
      Chosen 3 t.preorder 4 (.identifier "first" ⟨0, 4⟩) twin := by
  intro node t twin
  have hholds : ∃ n ∈ t.preorder, (span n).holds 3 = true := ⟨_, List.mem_cons_self, rfl⟩
  obtain ⟨m, first, n, hfind, hchosen, -⟩ := (findAt_chosen t 3).2 hholds
  obtain rfl : twin = n := Option.some.inj hfind
  obtain rfl : 4 = m := (congrArg Span.width hchosen.span_eq).trans hchosen.width_first
  obtain rfl : .identifier "first" ⟨0, 4⟩ = first := Option.some.inj hchosen.earliest
  exact ⟨hholds, hfind, hchosen⟩

end LanguageServer.Script.Tree
