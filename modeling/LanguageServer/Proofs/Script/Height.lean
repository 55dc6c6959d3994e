import LanguageServer.Proofs.Script.Render
import LanguageServer.Proofs.Script.Tree

/-! # How high the tree of a program is

The limit on nesting counts the expressions that are open at once while a text is read. A chain of
infix operators is read by a loop: its right operands are read one level deeper, but the operand on
the left, which is the whole chain so far, is open no longer. So the limit bounds the steps down a
tree that do not go to the operand on the left of an operator, and no others.

* `Shape.nesting`, `Derives.nesting_le`: the steps that the limit does bound;
* `Expr.leftSteps`, `Expr.low_of_leftSteps`: with at most `width` steps to the left in a row, each
  level is no more than `width + 1` nodes on top of each other;
* `height_le_of_parse`: the bound for programs;
* `heights_unbounded`: without a bound on the steps to the left there is none, for the sums
  `1+1+…+1`. -/

namespace LanguageServer.Script

/-! ### Height -/

namespace Tree

variable {α : Type}

mutual

/-- The number of labels on the longest way down. -/
def height : Tree α → Nat
  | node _ children => 1 + heightAll children

/-- The height of the highest tree, zero if there is none. -/
def heightAll : List (Tree α) → Nat
  | [] => 0
  | t :: ts => max t.height (heightAll ts)

end

theorem heightAll_le_iff {ts : List (Tree α)} {n : Nat} :
    heightAll ts ≤ n ↔ ∀ t ∈ ts, t.height ≤ n := by
  induction ts with
  | nil => simp [heightAll]
  | cons t ts ih => rw [heightAll, Nat.max_le, ih, List.forall_mem_cons]

end Tree

namespace Expr

theorem height_tree (e : Expr) : e.tree.height = 1 + Tree.heightAll (e.children.map tree) := by
  rw [tree_eq, Tree.height]

theorem height_le_succ_iff {e : Expr} {n : Nat} :
    e.tree.height ≤ 1 + n ↔ ∀ c ∈ e.children, c.tree.height ≤ n := by
  rw [height_tree, Nat.add_le_add_iff_left, Tree.heightAll_le_iff, List.forall_mem_map]

theorem height_child_lt {c e : Expr} (h : c ∈ e.children) : c.tree.height < e.tree.height := by
  have hc : c.tree.height ≤ Tree.heightAll (e.children.map tree) :=
    Tree.heightAll_le_iff.mp (Nat.le_refl _) _ (List.mem_map_of_mem h)
  rw [height_tree e]
  omega

/-- How often one can go to the operand on the left of an infix operator, from here on. -/
def leftSteps : Expr → Nat
  | binary left _ _ _ => left.leftSteps + 1
  | identifier .. | number .. | text .. | boolean .. | null .. | unary .. | call .. | block .. => 0

end Expr

/-! ### What the limit bounds -/

namespace Shape

mutual

/-- The number of expressions on a way down, less those that are the left operand of the one above,
for the way on which there are most. -/
def nesting : Shape → Nat
  | identifier _ | number _ | text _ | boolean _ | null => 1
  | unary _ operand => 1 + operand.nesting
  | binary left _ right => max left.nesting (1 + right.nesting)
  | call _ arguments => 1 + nestingAll arguments
  | block statements => 1 + nestingAll statements

/-- The greatest nesting among the expressions, zero if there is none. -/
def nestingAll : List Shape → Nat
  | [] => 0
  | s :: ss => max s.nesting (nestingAll ss)

end

theorem nestingAll_le_iff {ss : List Shape} {n : Nat} :
    nestingAll ss ≤ n ↔ ∀ s ∈ ss, s.nesting ≤ n := by
  induction ss with
  | nil => simp [nestingAll]
  | cons s ss ih => rw [nestingAll, Nat.max_le, ih, List.forall_mem_cons]

theorem nesting_pos : ∀ s : Shape, 1 ≤ s.nesting
  | identifier _ | number _ | text _ | boolean _ | null => Nat.le_refl 1
  | unary .. | call .. | block .. => Nat.le_add_right 1 _
  | binary left _ _ => Nat.le_trans left.nesting_pos (Nat.le_max_left _ _)

end Shape

/-- **Nothing nests deeper than the phrase it was read from;** parentheses leave no node. -/
theorem Derives.nesting_le {s : Stratum} {p : Phrase} (d : Derives s p) :
    p.shape.nesting ≤ p.nesting := by
  have hcall {callee : Callee} {args : List Phrase}
      (ih : ∀ q ∈ args, q.shape.nesting ≤ q.nesting) :
      (Shape.call callee (args.map Phrase.shape)).nesting ≤ 1 + Phrase.deepest args := by
    refine Nat.add_le_add_left (Shape.nestingAll_le_iff.mpr ?_) 1
    exact List.forall_mem_map.mpr fun q hq => Nat.le_trans (ih q hq) (Phrase.nesting_le_deepest hq)
  induction d with
  | identifier | number | text | boolean | null => exact Nat.le_refl 1
  | group _ ih => exact Nat.le_trans ih (Nat.le_add_left _ 1)
  | call _ _ ih | member _ _ _ ih => exact hcall ih
  | sign _ _ ih => exact Nat.add_le_add_left ih 1
  | power _ _ ihl ihr | binary _ _ _ ihl ihr =>
    simp only [Phrase.binary, Shape.nesting]
    omega
  | tighter _ ih => exact ih

/-- **The limit on nesting, for the statements of a program.** -/
theorem nesting_le_of_parse {text : String} {e : Expr} (h : parse text = .ok e) :
    ∀ statement ∈ e.children, statement.shape.nesting ≤ maxNesting := by
  obtain ⟨ts, es, hts, hst, rfl⟩ := exists_of_parse_eq_ok h
  obtain ⟨_, ps, rfl, hprogram, hshapes, hlimit⟩ := statements_sound (tokens_finished hts) hst
  intro statement hmem
  have hshape : statement.shape ∈ ps.map Phrase.shape := by
    rw [← hshapes]
    exact List.mem_map_of_mem hmem
  obtain ⟨p, hp, hshape⟩ := List.mem_map.mp hshape
  rw [← hshape]
  exact Nat.le_trans (hprogram.derives p hp).1.nesting_le (hlimit p hp)

/-! ### From nesting to height -/

namespace Expr

variable {width level : Nat}

/-- The expression is no higher than its levels allow: `width + 1` nodes for every level but the
first, and for the first its steps to the left and the node where they end. -/
def Low (width : Nat) (e : Expr) : Prop :=
  ∀ level, e.shape.nesting ≤ level + 1 → e.tree.height ≤ e.leftSteps + 1 + level * (width + 1)

theorem Low.height_le {e : Expr} (h : Low width e) (hleft : e.leftSteps ≤ width)
    (hn : e.shape.nesting ≤ level) : e.tree.height ≤ level * (width + 1) := by
  obtain ⟨below, rfl⟩ := Nat.exists_eq_add_of_le' (Nat.le_trans e.shape.nesting_pos hn)
  have := h below hn
  rw [Nat.succ_mul]
  omega

/-- One level more, for nodes with no operand on the left. -/
theorem low_of_children {e : Expr} (hleft : e.leftSteps = 0)
    (hc : ∀ c ∈ e.children, Low width c ∧ c.leftSteps ≤ width ∧
      1 + c.shape.nesting ≤ e.shape.nesting) : Low width e := by
  intro level hn
  rw [hleft, Nat.zero_add, height_le_succ_iff]
  intro c hmem
  obtain ⟨hlow, hsteps, hnest⟩ := hc c hmem
  exact hlow.height_le hsteps (by omega)

theorem nesting_succ_le_of_mem {c : Expr} {es : List Expr} (h : c ∈ es) :
    1 + c.shape.nesting ≤ 1 + Shape.nestingAll (shapes es) := by
  refine Nat.add_le_add_left (Shape.nestingAll_le_iff.mp (Nat.le_refl _) _ ?_) 1
  rw [shapes_eq_map]
  exact List.mem_map_of_mem h

/-- **With few steps to the left in a row** a tree is as low as its levels allow. -/
theorem low_of_leftSteps (e : Expr) (h : ∀ n ∈ e.tree.preorder, n.leftSteps ≤ width) :
    Low width e := by
  induction e using induction_children with
  | h e ih =>
    obtain ⟨-, hbelow⟩ := forall_mem_preorder.mp h
    have hlow : ∀ c ∈ e.children, Low width c ∧ c.leftSteps ≤ width := fun c hc =>
      ⟨ih c hc (hbelow c hc), hbelow c hc c c.mem_preorder_self⟩
    cases e with
    | identifier | number | text | boolean | null =>
      exact low_of_children rfl fun _ hc => absurd hc List.not_mem_nil
    | unary op operand =>
      refine low_of_children rfl fun c hc => ?_
      obtain rfl := List.mem_singleton.mp hc
      exact ⟨(hlow c hc).1, (hlow c hc).2, Nat.le_refl _⟩
    | call _ es | block es =>
      exact low_of_children rfl fun c hc =>
        ⟨(hlow c hc).1, (hlow c hc).2, nesting_succ_le_of_mem hc⟩
    | binary left op right =>
      obtain ⟨hl, -⟩ := hlow left List.mem_cons_self
      obtain ⟨hr, hsteps⟩ := hlow right (List.mem_cons_of_mem _ List.mem_cons_self)
      intro level hn
      rw [shape, Shape.nesting, Nat.max_le] at hn
      -- the left operand has all levels and a step to the left less, the right one a level less
      have hleft := hl level hn.1
      have hright := hr.height_le hsteps (show right.shape.nesting ≤ level by omega)
      rw [leftSteps, Nat.add_right_comm, Nat.add_comm, height_le_succ_iff]
      simp only [children, List.forall_mem_cons]
      exact ⟨by omega, by omega, fun _ hc => absurd hc List.not_mem_nil⟩

end Expr

/-- **How high the tree of a program can be.** In a tree in which at most `width` steps in a row go
to the operand on the left, at most `maxNesting * (width + 1)` nodes of a statement lie on top of
each other. -/
theorem height_le_of_parse {text : String} {e : Expr} (hparse : parse text = .ok e) {width : Nat}
    (hleft : ∀ node ∈ e.tree.preorder, node.leftSteps ≤ width) :
    e.tree.height ≤ 1 + maxNesting * (width + 1) := by
  obtain ⟨-, hbelow⟩ := Expr.forall_mem_preorder.mp hleft
  rw [Expr.height_le_succ_iff]
  intro statement hmem
  have hlow := Expr.low_of_leftSteps statement (hbelow statement hmem)
  exact hlow.height_le (hbelow statement hmem _ statement.mem_preorder_self)
    (nesting_le_of_parse hparse statement hmem)

/-- The program `1-2-3**4`, with two steps to the left. -/
theorem height_le_of_parse_differences :
    let e : Expr := .block [.binary
      (.binary (.number "1" ⟨0, 1⟩) .minus (.number "2" ⟨2, 3⟩) ⟨0, 3⟩) .minus
      (.binary (.number "3" ⟨4, 5⟩) .power (.number "4" ⟨7, 8⟩) ⟨4, 8⟩) ⟨0, 8⟩] ⟨0, 8⟩
    parse "1-2-3**4" = .ok e ∧ (∀ node ∈ e.tree.preorder, node.leftSteps ≤ 2) ∧
      e.tree.height ≤ 1 + maxNesting * (2 + 1) := by
  intro e
  have hparse : parse "1-2-3**4" = .ok e := by with_unfolding_all rfl
  have hleft : ∀ node ∈ e.tree.preorder, node.leftSteps ≤ 2 := by decide
  exact ⟨hparse, hleft, height_le_of_parse hparse hleft⟩

/-! ### Long sums -/

/-- The sum `1+1+…+1` with a number of additions, as a phrase. -/
def longSum : Nat → Phrase
  | 0 => .atom (.number "1") (.number "1")
  | n + 1 => (longSum n).binary .plus (.atom (.number "1") (.number "1"))

/-- The characters of the sum `1+1+…+1`. -/
def longSumText : Nat → List Char
  | 0 => ['1']
  | n + 1 => longSumText n ++ ['+', '1']

theorem derives_longSum (n : Nat) : Derives .sum (longSum n) := by
  induction n with
  | zero => exact (Derives.number "1").loosen (by decide)
  | succ n ih => exact .binary (by decide) ih ((Derives.number "1").loosen (by decide))

theorem nesting_longSum (n : Nat) : (longSum n).nesting ≤ 2 := by
  induction n with
  | zero => decide
  | succ n ih => exact Nat.max_le.mpr ⟨ih, Nat.le_refl 2⟩

theorem cuts_longSum (n : Nat) {rest : List Char}
    (hrest : ∀ c ∈ rest.head?, c.isDigit = false ∧ c ≠ '.') :
    Cuts (longSumText n ++ rest) (longSum n).kinds rest := by
  have hone : IsNumber "1" := ⟨'1', [], rfl, rfl, isNumberTail_take []⟩
  induction n generalizing rest with
  | zero => exact cuts_number hone hrest
  | succ n ih =>
    have hsum : Cuts (longSumText n ++ '+' :: '1' :: rest) (longSum n).kinds ('+' :: '1' :: rest) :=
      ih (by simp)
    have hplus : Cuts ('+' :: '1' :: rest) [.operator .plus] ('1' :: rest) :=
      cuts_operator (by rfl) nofun
    rw [longSumText, List.append_assoc]
    exact hsum.trans (hplus.trans (cuts_number hone hrest))

theorem lt_height_longSum {n : Nat} {e : Expr} (h : e.shape = (longSum n).shape) :
    n < e.tree.height := by
  induction n generalizing e with
  | zero => rw [Expr.height_tree]; omega
  | succ n ih =>
    cases e with
    | binary left op right span =>
      injection h with hleft
      have hmem : left ∈ (Expr.binary left op right span).children := List.mem_cons_self
      exact Nat.lt_of_le_of_lt (ih hleft) (Expr.height_child_lt hmem)
    | _ => cases h

theorem exists_parse_longSum (n : Nat) :
    ∃ e, parse (String.ofList (longSumText n)) = .ok e ∧ n < e.tree.height := by
  have hcuts : Cuts (longSumText n ++ []) (longSum n).kinds [] := cuts_longSum n nofun
  rw [List.append_nil, ← String.toList_ofList (l := longSumText n)] at hcuts
  obtain ⟨ts, hts, hkinds⟩ := tokens_of_cuts hcuts
  have hd : Derives .disjunction (longSum n) := (derives_longSum n).loosen (by decide)
  have hlimit : (longSum n).nesting ≤ maxNesting := Nat.le_trans (nesting_longSum n) (by decide)
  obtain ⟨es, hshapes, hread⟩ := (Program.last hd).reads (by simpa using hlimit) hkinds []
  obtain ⟨e, rfl, hshape⟩ := List.map_eq_singleton_iff.mp hshapes
  refine ⟨.block [e] ⟨0, (String.ofList (longSumText n)).length⟩, ?_, ?_⟩
  · rw [parse, hts]
    simp only [hread]
    rfl
  · refine Nat.lt_trans (lt_height_longSum hshape) (Expr.height_child_lt ?_)
    exact List.mem_cons_self

/-- **No height is out of reach:** the trees of programs have no bound on their height. -/
theorem heights_unbounded :
    ¬ ∃ bound, ∀ (text : String) (e : Expr), parse text = .ok e → e.tree.height ≤ bound := by
  rintro ⟨bound, hbound⟩
  obtain ⟨e, hparse, hhigh⟩ := exists_parse_longSum bound
  exact Nat.not_lt.mpr (hbound _ e hparse) hhigh

end LanguageServer.Script
