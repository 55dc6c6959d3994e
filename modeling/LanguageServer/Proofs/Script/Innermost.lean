import LanguageServer.Proofs.Script.Layout
import LanguageServer.Proofs.Script.Narrowest

/-! # The node under the cursor

Looking for the narrowest node folds over the nodes in pre-order. Where children stand apart inside
their parents, the nodes that hold an offset are a path from the root down, each narrower than the
one above or as wide; so the last of them is found, and it is the *innermost*.

* `child_cases`: the next node of the path;
* `foldl_narrowest`: the path, by induction over children;
* `findAt_program`: programs. -/

namespace LanguageServer.Script

/-! ### The innermost node -/

open Script.Tree (narrowest replaces narrowest_of_holds replaces_of_inside
  foldl_narrowest_of_not_holds)

/-- **The innermost node of an expression at an offset:** it holds the offset, and every node that
does has it at or below itself. -/
structure Innermost (e : Expr) (index : Nat) (n : Expr) : Prop where
  mem : n ∈ e.tree.preorder
  holds : n.span.holds index = true
  below : ∀ m ∈ e.tree.preorder, m.span.holds index = true → n ∈ m.tree.preorder

theorem eq_or_sizeOf_lt_of_mem_preorder {e n : Expr} (hn : n ∈ e.tree.preorder) :
    n = e ∨ sizeOf n < sizeOf e := by
  induction e using Expr.induction_children with
  | h e ih =>
    rw [Expr.preorder_tree, List.mem_cons] at hn
    rcases hn with rfl | hn
    · exact Or.inl rfl
    · obtain ⟨c, hc, hn⟩ := List.mem_flatMap.mp hn
      have hlt := Expr.sizeOf_lt_of_mem_children hc
      rcases ih c hc hn with rfl | hn
      · exact Or.inr hlt
      · exact Or.inr (Nat.lt_trans hn hlt)

theorem Innermost.unique {e n n' : Expr} {index : Nat} (h : Innermost e index n)
    (h' : Innermost e index n') : n = n' := by
  rcases eq_or_sizeOf_lt_of_mem_preorder (h.below n' h'.mem h'.holds) with heq | hlt
  · exact heq
  · rcases eq_or_sizeOf_lt_of_mem_preorder (h'.below n h.mem h.holds) with heq | hlt'
    · exact heq.symm
    · exact absurd hlt (Nat.lt_asymm hlt')

section Fold
variable {index : Nat}

theorem not_holds_of_mem {e : Expr} (h : ∀ m ∈ e.tree.preorder, Nested m)
    (he : e.span.holds index = false) {n : Expr} (hn : n ∈ e.tree.preorder) :
    n.span.holds index = false := by
  have hwithin := within_of_nested h hn
  rw [Bool.eq_false_iff, Ne, Span.holds_iff] at he ⊢
  omega

/-- Of the children of a node, the only ones that can hold an offset are one and the same. -/
theorem not_holds_of_apart {before after : List Expr} {c : Expr}
    (h : (before ++ c :: after).Pairwise fun c d => c.span.stop ≤ d.span.start)
    (hc : c.span.holds index = true) : ∀ d ∈ before ++ after, d.span.holds index = false := by
  obtain ⟨-, hafter, hbefore⟩ := List.pairwise_append.mp h
  rw [Span.holds_iff] at hc
  intro d hd
  rw [Bool.eq_false_iff, Ne, Span.holds_iff]
  rcases List.mem_append.mp hd with hd | hd
  · have := hbefore d hd c List.mem_cons_self
    omega
  · have := (List.pairwise_cons.mp hafter).1 d hd
    omega

theorem innermost_self {e : Expr} (he : e.span.holds index = true)
    (hchildren : ∀ c ∈ e.children, ∀ n ∈ c.tree.preorder, n.span.holds index = false) :
    Innermost e index e := by
  refine ⟨e.mem_preorder_self, he, fun m hm hholds => ?_⟩
  rw [Expr.preorder_tree, List.mem_cons] at hm
  rcases hm with rfl | hm
  · exact m.mem_preorder_self
  · obtain ⟨c, hc, hm⟩ := List.mem_flatMap.mp hm
    rw [hchildren c hc m hm] at hholds
    cases hholds

theorem Innermost.of_child {e c n : Expr} {before after : List Expr} (hn : Innermost c index n)
    (hchildren : e.children = before ++ c :: after)
    (hothers : ∀ d ∈ before ++ after, ∀ m ∈ d.tree.preorder, m.span.holds index = false) :
    Innermost e index n := by
  have hmem : n ∈ e.tree.preorder := by
    rw [Expr.preorder_tree, hchildren, List.flatMap_append, List.flatMap_cons]
    exact List.mem_cons_of_mem e (List.mem_append_right _ (List.mem_append_left _ hn.mem))
  refine ⟨hmem, hn.holds, fun m hm hholds => ?_⟩
  rw [Expr.preorder_tree, List.mem_cons] at hm
  rcases hm with rfl | hm
  · exact hmem
  · obtain ⟨d, hd, hm⟩ := List.mem_flatMap.mp hm
    rw [hchildren, List.mem_append, List.mem_cons, or_left_comm, ← List.mem_append] at hd
    rcases hd with rfl | hd
    · exact hn.below m hm hholds
    · rw [hothers d hd m hm] at hholds
      cases hholds

/-- **At most one child of a nested expression holds an offset,** and the nodes of the others do not
hold it. -/
theorem child_cases {e : Expr} (h : ∀ m ∈ e.tree.preorder, Nested m) (index : Nat) :
    (∀ c ∈ e.children, ∀ m ∈ c.tree.preorder, m.span.holds index = false) ∨
      ∃ before c after, e.children = before ++ c :: after ∧ c.span.holds index = true ∧
        ∀ d ∈ before ++ after, ∀ m ∈ d.tree.preorder, m.span.holds index = false := by
  obtain ⟨hnested, hbelow⟩ := Expr.forall_mem_preorder.mp h
  by_cases hchild : ∃ c ∈ e.children, c.span.holds index = true
  · obtain ⟨c, hc, hholds⟩ := hchild
    obtain ⟨before, after, hchildren⟩ := List.append_of_mem hc
    have hapart := hnested.apart
    rw [hchildren] at hapart
    refine Or.inr ⟨before, c, after, hchildren, hholds, fun d hd m hm => ?_⟩
    have hmem : d ∈ e.children := by
      rw [hchildren]
      simp only [List.mem_append, List.mem_cons] at hd ⊢
      exact hd.imp_right Or.inr
    exact not_holds_of_mem (hbelow d hmem) (not_holds_of_apart hapart hholds d hd) hm
  · refine Or.inl fun c hc m hm => not_holds_of_mem (hbelow c hc) ?_ hm
    exact Bool.eq_false_iff.mpr fun hholds => hchild ⟨c, hc, hholds⟩

/-- **The fold ends at the innermost node,** if the one found before gives way. -/
theorem foldl_narrowest {e : Expr} (h : ∀ m ∈ e.tree.preorder, Nested m)
    (he : e.span.holds index = true) {found : Option Expr}
    (hfound : ∀ best ∈ found, replaces e.span best.span = true) :
    ∃ n, e.tree.preorder.foldl (narrowest index) found = some n ∧ Innermost e index n := by
  induction e using Expr.induction_children generalizing found with
  | h e ih =>
    obtain ⟨hnested, hbelow⟩ := Expr.forall_mem_preorder.mp h
    have hpass {ds : List Expr} (hds : ∀ d ∈ ds, ∀ m ∈ d.tree.preorder, m.span.holds index = false)
        (found : Option Expr) :
        (ds.flatMap fun d => d.tree.preorder).foldl (narrowest index) found = found := by
      refine foldl_narrowest_of_not_holds (fun m hm => ?_) found
      obtain ⟨d, hd, hm⟩ := List.mem_flatMap.mp hm
      exact hds d hd m hm
    rw [Expr.preorder_tree, List.foldl_cons, narrowest_of_holds he hfound]
    rcases child_cases h index with hnone | ⟨before, c, after, hchildren, hholds, hothers⟩
    · exact ⟨e, hpass hnone _, innermost_self he hnone⟩
    · have hc : c ∈ e.children := by
        rw [hchildren]
        exact List.mem_append_right before List.mem_cons_self
      have hgives : ∀ best ∈ some e, replaces c.span best.span = true := by
        rintro best ⟨⟩
        exact replaces_of_inside (hnested.inside c hc).1 (hnested.inside c hc).2
      obtain ⟨n, hfold, hn⟩ := ih c hc (hbelow c hc) hholds hgives
      obtain ⟨hbefore, hafter⟩ := List.forall_mem_append.mp hothers
      rw [hchildren, List.flatMap_append, List.flatMap_cons, List.foldl_append, List.foldl_append,
        hpass hbefore, hfold, hpass hafter]
      exact ⟨n, rfl, hn.of_child hchildren hothers⟩

end Fold

/-! ### Programs -/

theorem parse_nested {text : String} {e : Expr} (h : parse text = .ok e) :
    e.span = ⟨0, text.length⟩ ∧ ∀ m ∈ e.tree.preorder, Nested m := by
  obtain ⟨es, rfl, htidy, hapart, hstop⟩ := parse_tidy h
  refine ⟨rfl, Expr.forall_mem_preorder.mpr ⟨⟨fun s hs => ?_, hapart⟩, fun s hs m hm => ?_⟩⟩
  · exact ⟨Nat.zero_le _, hstop s hs⟩
  · exact (htidy s hs m hm).nested

/-- **The node found in a program** is the innermost one; there is one for every offset of the text
and for no other. -/
theorem findAt_program {text : String} {e : Expr} (h : parse text = .ok e) (index : Nat) :
    (index < text.length → ∃ n, e.tree.findAt index = some n ∧ Innermost e index n) ∧
      (text.length ≤ index → e.tree.findAt index = none) := by
  obtain ⟨hspan, hnested⟩ := parse_nested h
  rw [Tree.findAt_eq_foldl]
  refine ⟨fun hlt => foldl_narrowest hnested ?_ nofun, fun hle => ?_⟩
  · rw [hspan, Span.holds_iff]
    exact ⟨Nat.zero_le index, hlt⟩
  · refine foldl_narrowest_of_not_holds (fun n hn => not_holds_of_mem hnested ?_ hn) none
    rw [hspan, Bool.eq_false_iff, Ne, Span.holds_iff]
    exact fun hholds => Nat.not_lt.mpr hle hholds.2

theorem stop_le_of_parse {text : String} {e n : Expr} (h : parse text = .ok e)
    (hn : n ∈ e.tree.preorder) : n.span.stop ≤ text.length := by
  obtain ⟨hspan, hnested⟩ := parse_nested h
  have hwithin := within_of_nested hnested hn
  rw [hspan] at hwithin
  exact hwithin.2

end LanguageServer.Script
