import LanguageServer.Proofs.Script.Tree

/-! # Walks that stop

A walk goes through a tree by recursion on the trees and the lists of trees below them, and hands an
answer `false` up through all of them. What it does to the visitor is told by the list of the nodes
alone: the visitor is called on one node after the other, up to the first that it refuses.

A node is known by its *place*, the numbers of the children on the way to it, as equal nodes may
stand at several places. The nodes in pre-order are those of all places in lexicographic order, so
the list is settled by the places.

* `Tree.located`: the nodes with their places, in pre-order;
* `located_pairwise`, `mem_located`: the places are in order, and they are all places;
* `visitEach`: the calls on a list of nodes, with `walk_eq_visitEach` by induction on trees and
  lists of trees together;
* `visitEach_noting`: which calls are made;
* `walk_stops`: the expressions. -/

namespace LanguageServer.Script

namespace Tree

variable {α σ : Type}

/-! ### Places -/

/-- The label at a place: each number leads to a child. -/
def at? : Tree α → List Nat → Option α
  | node label _, [] => some label
  | node _ children, i :: place => children[i]?.bind fun t => t.at? place

mutual

/-- The labels in pre-order, each with its place. -/
def located : Tree α → List (List Nat × α)
  | node label children => ([], label) :: locatedFrom 0 children

/-- The labels of trees that are children, the first of them with the given number. -/
def locatedFrom (first : Nat) : List (Tree α) → List (List Nat × α)
  | [] => []
  | t :: ts => t.located.map (fun n => (first :: n.1, n.2)) ++ locatedFrom (first + 1) ts

end

mutual

theorem map_snd_located : (t : Tree α) → t.located.map Prod.snd = t.preorder
  | node label children => by
    rw [located, preorder, List.map_cons, map_snd_locatedFrom 0 children]

theorem map_snd_locatedFrom (first : Nat) : (ts : List (Tree α)) →
    (locatedFrom first ts).map Prod.snd = preorderAll ts
  | [] => rfl
  | t :: ts => by
    have hfirst : (t.located.map fun n => (first :: n.1, n.2)).map Prod.snd = t.preorder := by
      rw [List.map_map, ← map_snd_located t]
      rfl
    rw [locatedFrom, preorderAll, List.map_append, hfirst, map_snd_locatedFrom (first + 1) ts]

end

mutual

/-- **The nodes with their places** are those that are found at them. -/
theorem mem_located {place : List Nat} {n : α} : (t : Tree α) →
    ((place, n) ∈ t.located ↔ t.at? place = some n)
  | node label children => by
    rw [located, List.mem_cons, mem_locatedFrom children]
    cases place with
    | nil => simp [at?, eq_comm]
    | cons i below =>
      rw [at?, Option.bind_eq_some_iff]
      constructor
      · rintro (h | ⟨k, t, rest, ht, hplace, hn⟩)
        · cases h
        · rw [Nat.zero_add] at hplace
          cases hplace
          exact ⟨t, ht, hn⟩
      · rintro ⟨t, ht, hn⟩
        exact Or.inr ⟨i, t, below, ht, by rw [Nat.zero_add], hn⟩

theorem mem_locatedFrom {first : Nat} {place : List Nat} {n : α} : (ts : List (Tree α)) →
    ((place, n) ∈ locatedFrom first ts ↔
      ∃ i t below, ts[i]? = some t ∧ place = (first + i) :: below ∧ t.at? below = some n)
  | [] => by simp [locatedFrom]
  | t :: ts => by
    rw [locatedFrom, List.mem_append, List.mem_map, mem_locatedFrom ts]
    constructor
    · rintro (⟨⟨below, m⟩, hm, heq⟩ | ⟨i, u, below, hu, rfl, hn⟩)
      · cases heq
        exact ⟨0, t, below, rfl, rfl, (mem_located t).mp hm⟩
      · exact ⟨i + 1, u, below, hu, by rw [Nat.add_right_comm, Nat.add_assoc], hn⟩
    · rintro ⟨i, u, below, hu, rfl, hn⟩
      cases i with
      | zero =>
        cases hu
        exact Or.inl ⟨(below, n), (mem_located t).mpr hn, rfl⟩
      | succ i =>
        exact Or.inr ⟨i, u, below, hu, by rw [Nat.add_right_comm, Nat.add_assoc], hn⟩

end

mutual

/-- **The places are in lexicographic order,** so no place comes twice. -/
theorem located_pairwise : (t : Tree α) → t.located.Pairwise fun m n => m.1 < n.1
  | node label children => by
    rw [located, List.pairwise_cons]
    refine ⟨fun n hn => ?_, locatedFrom_pairwise 0 children⟩
    obtain ⟨i, t, below, -, hplace, -⟩ := (mem_locatedFrom children).mp hn
    rw [hplace]
    exact List.nil_lt_cons _ _

theorem locatedFrom_pairwise (first : Nat) : (ts : List (Tree α)) →
    (locatedFrom first ts).Pairwise fun m n => m.1 < n.1
  | [] => List.Pairwise.nil
  | t :: ts => by
    rw [locatedFrom, List.pairwise_append, List.pairwise_map]
    refine ⟨?_, locatedFrom_pairwise (first + 1) ts, ?_⟩
    · exact (located_pairwise t).imp fun h => List.cons_lt_cons_self.mpr h
    · -- the places below a later child begin with a greater number
      intro m hm n hn
      obtain ⟨m, -, rfl⟩ := List.mem_map.mp hm
      obtain ⟨i, u, below, -, hplace, -⟩ := (mem_locatedFrom ts).mp hn
      rw [hplace]
      exact List.Lex.rel (by omega)

end

/-! ### Calls -/

/-- Visits the labels of a list until the visitor answers `false`. -/
def visitEach (visit : σ → α → σ × Bool) (state : σ) : List α → σ × Bool
  | [] => (state, true)
  | n :: ns =>
    match visit state n with
    | (state, false) => (state, false)
    | (state, true) => visitEach visit state ns

theorem visitEach_cons (visit : σ → α → σ × Bool) (state : σ) (n : α) (ns : List α) :
    visitEach visit state (n :: ns) =
      if (visit state n).2 then visitEach visit (visit state n).1 ns
      else ((visit state n).1, false) := by
  rw [visitEach]
  rcases visit state n with ⟨next, _ | _⟩ <;> rfl

theorem visitEach_append (visit : σ → α → σ × Bool) (state : σ) (ns ms : List α) :
    visitEach visit state (ns ++ ms) =
      match visitEach visit state ns with
      | (state, false) => (state, false)
      | (state, true) => visitEach visit state ms := by
  induction ns generalizing state with
  | nil => rfl
  | cons n ns ih =>
    rw [List.cons_append, visitEach, visitEach]
    rcases visit state n with ⟨next, _ | _⟩
    · rfl
    · exact ih next

theorem visitEach_accepting (f : σ → α → σ) (state : σ) (ns : List α) :
    visitEach (fun state label => (f state label, true)) state ns = (ns.foldl f state, true) := by
  induction ns generalizing state with
  | nil => rfl
  | cons n ns ih =>
    rw [visitEach, List.foldl_cons]
    exact ih (f state n)

mutual

/-- **A walk calls the visitor on one node after the other.** -/
theorem walk_eq_visitEach (visit : σ → α → σ × Bool) (state : σ) : (t : Tree α) →
    t.walk visit state = visitEach visit state t.preorder
  | node label children => by
    rw [walk, preorder, visitEach]
    rcases visit state label with ⟨next, _ | _⟩
    · rfl
    · exact walkAll_eq_visitEach visit next children

theorem walkAll_eq_visitEach (visit : σ → α → σ × Bool) (state : σ) : (ts : List (Tree α)) →
    walkAll visit state ts = visitEach visit state (preorderAll ts)
  | [] => rfl
  | t :: ts => by
    rw [walkAll, walk_eq_visitEach visit state t, preorderAll, visitEach_append]
    rcases visitEach visit state t.preorder with ⟨next, _ | _⟩
    · rfl
    · exact walkAll_eq_visitEach visit next ts

end

/-! ### Which calls are made -/

/-- The visitor that also writes down the labels it is called on. -/
def noting (visit : σ → α → σ × Bool) (state : σ × List α) (label : α) : (σ × List α) × Bool :=
  let (next, go) := visit state.1 label
  ((next, state.2 ++ [label]), go)

section Calls
variable (visit : σ → α → σ × Bool)

/-- The state of the visitor after calls on the labels. -/
def stateAfter (state : σ) (ns : List α) : σ := ns.foldl (fun state n => (visit state n).1) state

/-- The visitor's answer on `n` after calls on the labels. -/
def answer (state : σ) (ns : List α) (n : α) : Bool := (visit (stateAfter visit state ns) n).2

/-- Called on one label after the other, the visitor accepts them all. -/
def Accepts (state : σ) (ns : List α) : Prop :=
  ∀ front n behind, ns = front ++ n :: behind → answer visit state front n = true

theorem accepts_nil (state : σ) : Accepts visit state [] := by
  intro front n behind h
  simp at h

variable {visit}

theorem Accepts.cons {state : σ} {n : α} {ns : List α} (hn : (visit state n).2 = true)
    (h : Accepts visit (visit state n).1 ns) : Accepts visit state (n :: ns) := by
  intro front m behind heq
  cases front with
  | nil =>
    cases heq
    exact hn
  | cons first front =>
    cases heq
    exact h front m behind rfl

/-- **The calls on a list** go up to the first label that the visitor refuses. -/
theorem visitEach_noting (visit : σ → α → σ × Bool) (state : σ) (noted ns : List α) :
    ∃ called uncalled go,
      ns = called ++ uncalled ∧
      visitEach visit state ns = (stateAfter visit state called, go) ∧
      visitEach (noting visit) (state, noted) ns =
        ((stateAfter visit state called, noted ++ called), go) ∧
      (go = true ∧ uncalled = [] ∧ Accepts visit state called ∨
        go = false ∧ ∃ front last, called = front ++ [last] ∧ Accepts visit state front ∧
          answer visit state front last = false) := by
  induction ns generalizing state noted with
  | nil =>
    refine ⟨[], [], true, rfl, rfl, ?_, Or.inl ⟨rfl, rfl, accepts_nil visit state⟩⟩
    rw [List.append_nil]
    rfl
  | cons n ns ih =>
    cases hgo : (visit state n).2 with
    | false =>
      refine ⟨[n], ns, false, rfl, ?_, ?_,
        Or.inr ⟨rfl, [], n, rfl, accepts_nil visit state, hgo⟩⟩
      · rw [visitEach_cons, if_neg (Bool.eq_false_iff.mp hgo)]
        rfl
      · rw [visitEach_cons]
        exact if_neg (Bool.eq_false_iff.mp hgo)
    | true =>
      obtain ⟨called, uncalled, go, rfl, hplain, hnoting, hends⟩ :=
        ih (visit state n).1 (noted ++ [n])
      refine ⟨n :: called, uncalled, go, rfl, ?_, ?_, ?_⟩
      · rw [visitEach_cons, if_pos hgo, hplain]
        rfl
      · rw [visitEach_cons]
        refine (if_pos hgo).trans (hnoting.trans ?_)
        rw [List.append_assoc]
        rfl
      · rcases hends with ⟨htrue, hnone, hall⟩ | ⟨hfalse, front, last, rfl, hfront, hlast⟩
        · exact Or.inl ⟨htrue, hnone, hall.cons hgo⟩
        · exact Or.inr ⟨hfalse, n :: front, last, rfl, hfront.cons hgo, hlast⟩

end Calls

end Tree

/-! ### Expressions -/

/-- The node at a place: each number leads to a child. -/
def Expr.at? : Expr → List Nat → Option Expr
  | e, [] => some e
  | e, i :: place => e.children[i]?.bind fun c => c.at? place

theorem Expr.at?_tree (e : Expr) (place : List Nat) : e.tree.at? place = e.at? place := by
  induction place generalizing e with
  | nil =>
    rw [Expr.tree_eq]
    rfl
  | cons i place ih =>
    rw [Expr.tree_eq, Tree.at?, Expr.at?, List.getElem?_map]
    cases e.children[i]? with
    | none => rfl
    | some c => exact ih c

/-- **A walk stops at the first node that the visitor refuses.** The nodes of an expression, each
once and in pre-order, are those at its places in lexicographic order. For every visitor with a
state, the walk calls it on the first of them, one after the other: on all nodes, with the answer
`true`, if it accepts them all, and otherwise up to the first that it refuses, with the answer
`false`. The visitor ends in the state after these calls. -/
theorem walk_stops {σ : Type} (e : Expr) (visit : σ → Expr → σ × Bool) (state : σ) :
    ∃ (called uncalled : List (List Nat × Expr)) (go : Bool),
      (called ++ uncalled).Pairwise (fun m n => m.1 < n.1) ∧
      (∀ place n, (place, n) ∈ called ++ uncalled ↔ e.at? place = some n) ∧
      e.tree.walk visit state = (Tree.stateAfter visit state (called.map Prod.snd), go) ∧
      e.tree.walk (Tree.noting visit) (state, []) =
        ((Tree.stateAfter visit state (called.map Prod.snd), called.map Prod.snd), go) ∧
      (go = true ∧ uncalled = [] ∧ Tree.Accepts visit state (called.map Prod.snd) ∨
        go = false ∧ ∃ front last, called.map Prod.snd = front ++ [last] ∧
          Tree.Accepts visit state front ∧ Tree.answer visit state front last = false) := by
  obtain ⟨nodes, behind, go, hnodes, hplain, hnoting, hends⟩ :=
    Tree.visitEach_noting visit state [] e.tree.preorder
  rw [← Tree.map_snd_located, List.map_eq_append_iff] at hnodes
  obtain ⟨called, uncalled, hlocated, rfl, rfl⟩ := hnodes
  rw [← Tree.walk_eq_visitEach] at hplain hnoting
  rw [List.map_eq_nil_iff] at hends
  refine ⟨called, uncalled, go, ?_, fun place n => ?_, hplain, hnoting, hends⟩
  · rw [← hlocated]
    exact e.tree.located_pairwise
  · rw [← hlocated, Tree.mem_located, Expr.at?_tree]

end LanguageServer.Script
