import LanguageServer.Proofs.Script.Tree
import LanguageServer.Script.Token
import Mathlib.Data.List.Basic
import Mathlib.Order.MinMax

/-! # Moving the places of tokens and nodes

A text that grows or loses characters somewhere leaves what stands elsewhere as it is, at another
place. A `Relocation` says where the places where things begin and end go; it keeps their order, so
the span that covers two moved spans is the one that covered them, moved.

* `Span.move_join`: spans;
* `Expr.children_move`, `Expr.preorder_move`: the nodes of a moved expression are its nodes,
  moved. -/

namespace LanguageServer.Script

/-- Where the offsets at which spans begin, and those at which they end, go. What comes before stays
before. -/
structure Relocation where
  start : Nat → Nat
  stop : Nat → Nat
  start_mono : Monotone start
  stop_mono : Monotone stop

/-- Everything moves `k` characters on. -/
def Relocation.shift (k : Nat) : Relocation where
  start i := i + k
  stop i := i + k
  start_mono _ _ h := Nat.add_le_add_right h k
  stop_mono _ _ h := Nat.add_le_add_right h k

/-! ### Spans and tokens -/

/-- The span, moved. -/
def Span.move (ρ : Relocation) (s : Span) : Span := ⟨ρ.start s.start, ρ.stop s.stop⟩

/-- The token, moved. -/
def Token.move (ρ : Relocation) (t : Token) : Token := ⟨t.kind, t.span.move ρ⟩

section
variable (ρ : Relocation)

theorem Span.move_join (s t : Span) : (s.join t).move ρ = (s.move ρ).join (t.move ρ) := by
  rw [Span.join, Span.move, Span.join, ρ.start_mono.map_min, ρ.stop_mono.map_max]
  rfl

@[simp] theorem Span.move_shift_zero (s : Span) : s.move (.shift 0) = s := rfl

@[simp] theorem Token.move_shift_zero (t : Token) : t.move (.shift 0) = t := rfl

end

/-! ### Expressions -/

namespace Expr

mutual

/-- The expression with all its nodes moved. -/
def move (ρ : Relocation) : Expr → Expr
  | identifier name s => identifier name (s.move ρ)
  | number digits s => number digits (s.move ρ)
  | text contents s => text contents (s.move ρ)
  | boolean value s => boolean value (s.move ρ)
  | null s => null (s.move ρ)
  | unary op operand s => unary op (operand.move ρ) (s.move ρ)
  | binary left op right s => binary (left.move ρ) op (right.move ρ) (s.move ρ)
  | call callee arguments s => call callee (moveAll ρ arguments) (s.move ρ)
  | block statements s => block (moveAll ρ statements) (s.move ρ)

/-- Each expression moved. -/
def moveAll (ρ : Relocation) : List Expr → List Expr
  | [] => []
  | e :: es => e.move ρ :: moveAll ρ es

end

section
variable (ρ : Relocation)

theorem moveAll_eq_map (es : List Expr) : moveAll ρ es = es.map (move ρ) := by
  induction es with
  | nil => rfl
  | cons e es ih => rw [moveAll, ih, List.map_cons]

@[simp] theorem span_move (e : Expr) : (e.move ρ).span = e.span.move ρ := by
  cases e <;> rfl

@[simp] theorem children_move (e : Expr) : (e.move ρ).children = e.children.map (move ρ) := by
  cases e with
  | identifier | number | text | boolean | null | unary | binary => rfl
  | call _ arguments | block arguments => exact moveAll_eq_map ρ arguments

theorem preorder_move (e : Expr) : (e.move ρ).tree.preorder = e.tree.preorder.map (move ρ) := by
  induction e using induction_children with
  | h e ih =>
    rw [preorder_tree, preorder_tree, children_move, List.map_cons, List.map_flatMap,
      List.flatMap_map]
    exact congrArg _ (List.flatMap_congr ih)

end

@[simp] theorem move_shift_zero (e : Expr) : e.move (.shift 0) = e := by
  have hall (es : List Expr) (h : ∀ e ∈ es, e.move (.shift 0) = e) :
      moveAll (.shift 0) es = es := by
    rw [moveAll_eq_map, List.map_congr_left h, List.map_id']
  induction e using induction_children with
  | h e ih =>
    cases e with
    | identifier | number | text | boolean | null => rfl
    | unary op operand s => rw [move, ih operand (by simp [children]), Span.move_shift_zero]
    | binary left op right s =>
      rw [move, ih left (by simp [children]), ih right (by simp [children]), Span.move_shift_zero]
    | call callee arguments s => rw [move, hall arguments ih, Span.move_shift_zero]
    | block statements s => rw [move, hall statements ih, Span.move_shift_zero]

end Expr

theorem map_move_shift_zero (es : List Expr) : es.map (Expr.move (.shift 0)) = es := by
  rw [List.map_congr_left fun e _ => e.move_shift_zero, List.map_id']

end LanguageServer.Script
