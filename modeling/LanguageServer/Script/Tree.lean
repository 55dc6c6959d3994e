import LanguageServer.Script.Expr

/-! # Trees and the node under the cursor

A `Tree` is a label with subtrees below it. `walk` visits the labels in pre-order with a visitor
that keeps a state and may stop the walk. `findAt` looks for the narrowest label whose span holds an
offset; among labels of one width a later one wins only if it lies inside the one found so far, so a
child is preferred to a parent with the same span. -/

namespace LanguageServer.Script

/-- What can be asked of a node of a program: the name of its kind, the characters it covers, its
source text, and the function called, for a call. -/
class Syntactic (α : Type) where
  kind : α → String
  span : α → Span
  render : α → String
  callee? : α → Option Callee

instance : Syntactic Expr := ⟨Expr.kind, Expr.span, Expr.render, Expr.callee?⟩

/-- A label and the trees below it. -/
inductive Tree (α : Type)
  | node (label : α) (children : List (Tree α))

namespace Tree

variable {α σ : Type}

mutual

/-- The labels, each before those below it, from left to right. -/
def preorder : Tree α → List α
  | node label children => label :: preorderAll children

/-- The labels of all trees, one tree after the other. -/
def preorderAll : List (Tree α) → List α
  | [] => []
  | t :: ts => t.preorder ++ preorderAll ts

end

mutual

/-- Visits the labels in pre-order until the visitor answers `false`; the answer says whether it
never did. -/
def walk (visit : σ → α → σ × Bool) (state : σ) : Tree α → σ × Bool
  | node label children =>
    match visit state label with
    | (state, false) => (state, false)
    | (state, true) => walkAll visit state children

/-- Visits the trees one after the other until the visitor answers `false`. -/
def walkAll (visit : σ → α → σ × Bool) (state : σ) : List (Tree α) → σ × Bool
  | [] => (state, true)
  | t :: ts =>
    match t.walk visit state with
    | (state, false) => (state, false)
    | (state, true) => walkAll visit state ts

end

/-- Whether a label with span `s` takes the place of one with span `best`. -/
def replaces (s best : Span) : Bool :=
  s.width < best.width || (s.width == best.width && s.within best)

/-- The better of the label found so far and the next one. -/
def narrowest [Syntactic α] (index : Nat) (found : Option α) (label : α) : Option α :=
  if (Syntactic.span label).holds index then
    match found with
    | none => some label
    | some best =>
      if replaces (Syntactic.span label) (Syntactic.span best) then some label else some best
  else found

/-- The narrowest label whose span holds `index`. -/
def findAt [Syntactic α] (index : Nat) (t : Tree α) : Option α :=
  (t.walk (fun found label => (narrowest index found label, true)) none).1

end Tree

namespace Expr

mutual

/-- The expression with all expressions below it, as a tree of nodes. -/
def tree : Expr → Tree Expr
  | e@(identifier ..) | e@(number ..) | e@(text ..) | e@(boolean ..) | e@(null ..) => .node e []
  | e@(unary _ operand _) => .node e [operand.tree]
  | e@(binary left _ right _) => .node e [left.tree, right.tree]
  | e@(call _ arguments _) => .node e (trees arguments)
  | e@(block statements _) => .node e (trees statements)

/-- The trees of the expressions. -/
def trees : List Expr → List (Tree Expr)
  | [] => []
  | e :: es => e.tree :: trees es

end

end Expr

end LanguageServer.Script
