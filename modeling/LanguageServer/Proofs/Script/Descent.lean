import LanguageServer.Proofs.Script.Innermost

/-! # The way down to the node under the cursor

In a program the node at an offset can also be found without looking at all nodes: from the root one
moves to the child that holds the offset, as long as there is one. There is never a choice, and the
node where the way ends is the narrowest one, because it is innermost and only one node is.

* `Expr.descend?`: the way down;
* `exists_descend?`: it ends at the innermost node, by induction over children;
* `findAt_descends`: programs. -/

namespace LanguageServer.Script

namespace Expr

/-- The children that hold the offset. -/
def childrenAt (index : Nat) (e : Expr) : List Expr :=
  e.children.filter fun c => c.span.holds index

/-- **The node that the way down from `e` ends at:** it goes on to the child that holds the offset
as long as there is one. There is no such node if the way comes to two children that hold it. -/
def descend? (index : Nat) (e : Expr) : Option Expr :=
  match _h : e.childrenAt index with
  | [] => some e
  | [c] => c.descend? index
  | _ :: _ :: _ => none
termination_by sizeOf e
decreasing_by
  have hc : c ∈ e.childrenAt index := _h ▸ List.mem_singleton_self c
  exact sizeOf_lt_of_mem_children (List.mem_filter.mp hc).1

end Expr

section Way
variable {index : Nat} {e c : Expr} {before after : List Expr}

theorem descend?_of_none (h : ∀ c ∈ e.children, c.span.holds index = false) :
    e.descend? index = some e := by
  have hnone : e.childrenAt index = [] :=
    List.filter_eq_nil_iff.mpr fun c hc => Bool.eq_false_iff.mp (h c hc)
  rw [Expr.descend?]
  split <;> simp_all

theorem descend?_of_child (hchildren : e.children = before ++ c :: after)
    (hc : c.span.holds index = true)
    (hothers : ∀ d ∈ before ++ after, d.span.holds index = false) :
    e.descend? index = c.descend? index := by
  obtain ⟨hbefore, hafter⟩ := List.forall_mem_append.mp hothers
  have hone : e.childrenAt index = [c] := by
    rw [Expr.childrenAt, hchildren, List.filter_append, List.filter_cons, if_pos hc,
      List.filter_eq_nil_iff.mpr fun d hd => Bool.eq_false_iff.mp (hbefore d hd),
      List.filter_eq_nil_iff.mpr fun d hd => Bool.eq_false_iff.mp (hafter d hd), List.nil_append]
  rw [Expr.descend?]
  split <;> simp_all

/-- **The way down ends at the innermost node.** -/
theorem exists_descend? (h : ∀ m ∈ e.tree.preorder, Nested m) (he : e.span.holds index = true) :
    ∃ n, e.descend? index = some n ∧ Innermost e index n := by
  induction e using Expr.induction_children with
  | h e ih =>
    obtain ⟨-, hbelow⟩ := Expr.forall_mem_preorder.mp h
    rcases child_cases h index with hnone | ⟨before, c, after, hchildren, hholds, hothers⟩
    · refine ⟨e, descend?_of_none fun c hc => ?_, innermost_self he hnone⟩
      exact hnone c hc c c.mem_preorder_self
    · have hc : c ∈ e.children := by
        rw [hchildren]
        exact List.mem_append_right before List.mem_cons_self
      obtain ⟨n, hway, hn⟩ := ih c hc (hbelow c hc) hholds
      refine ⟨n, ?_, hn.of_child hchildren hothers⟩
      rw [descend?_of_child hchildren hholds fun d hd => hothers d hd d d.mem_preorder_self, hway]

end Way

/-- **The narrowest node of a program is where the way down ends.** There is one for every offset of
the text and for no other. -/
theorem findAt_descends {text : String} {e : Expr} (h : parse text = .ok e) (index : Nat) :
    ((e.tree.findAt index).isSome = true ↔ index < text.length) ∧
      (index < text.length → e.tree.findAt index = e.descend? index) := by
  obtain ⟨hfound, hnone⟩ := findAt_program h index
  refine ⟨⟨fun hsome => ?_, fun hlt => ?_⟩, fun hlt => ?_⟩
  · refine Nat.lt_of_not_le fun hle => ?_
    rw [hnone hle] at hsome
    cases hsome
  · obtain ⟨n, hn, -⟩ := hfound hlt
    rw [hn]
    rfl
  · obtain ⟨hspan, hnested⟩ := parse_nested h
    have hholds : e.span.holds index = true := by
      rw [hspan, Span.holds_iff]
      exact ⟨Nat.zero_le index, hlt⟩
    obtain ⟨n, hn, hinner⟩ := hfound hlt
    obtain ⟨n', hway, hinner'⟩ := exists_descend? hnested hholds
    rw [hn, hway, hinner.unique hinner']

/-- The way down in `f(x)` past the root, which has the same span as its one statement. -/
theorem findAt_descends_call :
    let call : Expr := .call ⟨"", "f"⟩ [.identifier "x" ⟨2, 3⟩] ⟨0, 4⟩
    let e : Expr := .block [call] ⟨0, 4⟩
    parse "f(x)" = .ok e ∧ 1 < "f(x)".length ∧ e.tree.findAt 1 = some call ∧
      e.descend? 1 = some call := by
  intro call e
  have hparse : parse "f(x)" = .ok e := by with_unfolding_all rfl
  have hlt : 1 < "f(x)".length := by decide
  have hfind : e.tree.findAt 1 = some call := rfl
  exact ⟨hparse, hlt, hfind, ((findAt_descends hparse 1).2 hlt).symm.trans hfind⟩

end LanguageServer.Script
