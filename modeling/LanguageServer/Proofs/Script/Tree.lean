import LanguageServer.Script.Tree

/-! # The nodes of an expression

The nodes of an expression in pre-order are the expression itself and then the nodes of its
children, one child after the other: `Expr.preorder_tree`. So what holds of all nodes is shown by
induction over children, `Expr.induction_children`. -/

namespace LanguageServer.Script

theorem Tree.preorderAll_eq_flatMap {α : Type} (ts : List (Tree α)) :
    Tree.preorderAll ts = ts.flatMap Tree.preorder := by
  induction ts with
  | nil => rfl
  | cons t ts ih => rw [Tree.preorderAll, ih, List.flatMap_cons]

namespace Expr

theorem trees_eq_map (es : List Expr) : trees es = es.map tree := by
  induction es with
  | nil => rfl
  | cons e es ih => rw [trees, ih, List.map_cons]

theorem tree_eq (e : Expr) : e.tree = .node e (e.children.map tree) := by
  cases e with
  | identifier | number | text | boolean | null | unary | binary => rfl
  | call _ arguments | block arguments => rw [tree, children, trees_eq_map]

/-- **The nodes of an expression, from those of its children.** -/
theorem preorder_tree (e : Expr) :
    e.tree.preorder = e :: e.children.flatMap fun c => c.tree.preorder := by
  rw [tree_eq, Tree.preorder, Tree.preorderAll_eq_flatMap, List.flatMap_map]

theorem mem_preorder_self (e : Expr) : e ∈ e.tree.preorder := by
  rw [preorder_tree]
  exact List.mem_cons_self

theorem forall_mem_preorder {P : Expr → Prop} {e : Expr} :
    (∀ n ∈ e.tree.preorder, P n) ↔ P e ∧ ∀ c ∈ e.children, ∀ n ∈ c.tree.preorder, P n := by
  rw [preorder_tree, List.forall_mem_cons]
  simp only [List.mem_flatMap]
  constructor
  · exact fun ⟨he, hbelow⟩ => ⟨he, fun c hc n hn => hbelow n ⟨c, hc, hn⟩⟩
  · exact fun ⟨he, hbelow⟩ => ⟨he, fun n ⟨c, hc, hn⟩ => hbelow c hc n hn⟩

theorem sizeOf_lt_of_mem_children {c e : Expr} (h : c ∈ e.children) : sizeOf c < sizeOf e := by
  cases e with
  | identifier | number | text | boolean | null => cases h
  | unary op operand span =>
    obtain rfl := List.mem_singleton.mp h
    simp only [unary.sizeOf_spec]
    omega
  | binary left op right span =>
    simp only [children, List.mem_cons, List.not_mem_nil, or_false] at h
    rcases h with rfl | rfl <;> simp only [binary.sizeOf_spec] <;> omega
  | call callee arguments span =>
    have := List.sizeOf_lt_of_mem h
    simp only [call.sizeOf_spec]
    simp only [children] at this
    omega
  | block statements span =>
    have := List.sizeOf_lt_of_mem h
    simp only [block.sizeOf_spec]
    simp only [children] at this
    omega

theorem induction_children {P : Expr → Prop} (h : ∀ e, (∀ c ∈ e.children, P c) → P e) (e : Expr) :
    P e :=
  h e fun c hc =>
    have : sizeOf c < sizeOf e := sizeOf_lt_of_mem_children hc
    induction_children h c
termination_by sizeOf e

end Expr

end LanguageServer.Script
