import LanguageServer.Script.Parse

/-! # The grammar of scripts

The grammar is stratified: every stratum of operators takes its operands from the strata that bind
tighter. `Derives s p` says that the stratum `s` derives the phrase `p`: a sequence of kinds of
tokens, the expression it stands for without the places it was read from, and how deep it nests.
`Program ks ps` says that the kinds `ks` are those of a whole text whose statements are the phrases
`ps`.

* `Stratum.operators`: the infix operators that associate to the left, stratum by stratum;
* `Derives.power`: the one operator that associates to the right;
* `Derives.loosen`: what a stratum derives, every looser one does;
* `Derives.nesting_pos`, `Derives.head`: a phrase nests at least once, and its first token is one
  that an expression may begin with. -/

namespace LanguageServer.Script

/-! ### Expressions without places -/

/-- An expression without the places its parts were read from. -/
inductive Shape
  | identifier (name : String)
  | number (digits : String)
  | text (contents : String)
  | boolean (value : Bool)
  | null
  | unary (op : Operator) (operand : Shape)
  | binary (left : Shape) (op : Operator) (right : Shape)
  | call (callee : Callee) (arguments : List Shape)
  | block (statements : List Shape)

namespace Expr

mutual

/-- The expression without the places its parts were read from. -/
def shape : Expr → Shape
  | identifier name _ => .identifier name
  | number digits _ => .number digits
  | text contents _ => .text contents
  | boolean value _ => .boolean value
  | null _ => .null
  | unary op operand _ => .unary op operand.shape
  | binary left op right _ => .binary left.shape op right.shape
  | call callee arguments _ => .call callee (shapes arguments)
  | block statements _ => .block (shapes statements)

/-- The expressions without the places their parts were read from. -/
def shapes : List Expr → List Shape
  | [] => []
  | e :: es => e.shape :: shapes es

end

theorem shapes_eq_map (es : List Expr) : shapes es = es.map shape := by
  induction es with
  | nil => rfl
  | cons e es ih => simp [shapes, ih]

end Expr

/-! ### Strata -/

/-- The levels of the grammar, the loosest first. -/
inductive Stratum
  | disjunction | conjunction | equality | comparison | sum | product | power | sign | primary
  deriving DecidableEq, Repr

namespace Stratum

/-- The infix operators of a stratum that associate to the left. -/
def operators : Stratum → List Operator
  | disjunction => [.or]
  | conjunction => [.and]
  | equality => [.equal, .notEqual]
  | comparison => [.less, .lessEqual, .greater, .greaterEqual]
  | sum => [.plus, .minus]
  | product => [.times, .divide, .remainder]
  | power | sign | primary => []

/-- The next stratum that binds tighter; nothing binds tighter than a primary expression. -/
def tighter : Stratum → Stratum
  | disjunction => conjunction
  | conjunction => equality
  | equality => comparison
  | comparison => sum
  | sum => product
  | product => power
  | power => sign
  | sign | primary => primary

/-- The number of looser strata. -/
def rank : Stratum → Nat
  | disjunction => 0
  | conjunction => 1
  | equality => 2
  | comparison => 3
  | sum => 4
  | product => 5
  | power => 6
  | sign => 7
  | primary => 8

theorem rank_injective {s s' : Stratum} (h : s.rank = s'.rank) : s = s' := by
  cases s <;> cases s' <;> simp_all [rank]

theorem rank_tighter {s s' : Stratum} (h : s.rank < s'.rank) : s.tighter.rank = s.rank + 1 := by
  cases s with
  | primary => cases s' <;> simp [rank] at h
  | _ => rfl

end Stratum

/-! ### Phrases -/

/-- A sequence of kinds of tokens, the expression it stands for, and the number of expressions that
are open at once while it is read. -/
structure Phrase where
  kinds : List Token.Kind
  shape : Shape
  nesting : Nat

namespace Phrase

/-- A phrase of one token. -/
def atom (kind : Token.Kind) (shape : Shape) : Phrase := ⟨[kind], shape, 1⟩

/-- A phrase in parentheses. -/
def group (p : Phrase) : Phrase :=
  ⟨.openParen :: (p.kinds ++ [.closeParen]), p.shape, 1 + p.nesting⟩

/-- An operator before its operand. -/
def sign (op : Operator) (p : Phrase) : Phrase :=
  ⟨.operator op :: p.kinds, .unary op p.shape, 1 + p.nesting⟩

/-- Two operands with an operator between them. -/
def binary (l : Phrase) (op : Operator) (r : Phrase) : Phrase :=
  ⟨l.kinds ++ .operator op :: r.kinds, .binary l.shape op r.shape,
    max l.nesting (1 + r.nesting)⟩

/-- The kinds of phrases with commas between them. -/
def separated (args : List Phrase) : List Token.Kind :=
  List.intercalate [.comma] (args.map kinds)

theorem separated_singleton (p : Phrase) : separated [p] = p.kinds := by
  simp [separated, List.intercalate]

theorem separated_cons (p q : Phrase) (ps : List Phrase) :
    separated (p :: q :: ps) = p.kinds ++ .comma :: separated (q :: ps) := by
  simp [separated, List.intercalate]

/-- The greatest nesting among phrases, zero if there is none. -/
def deepest (args : List Phrase) : Nat := (args.map nesting).foldr max 0

theorem nesting_le_deepest {p : Phrase} {args : List Phrase} (h : p ∈ args) :
    p.nesting ≤ deepest args := by
  induction args with
  | nil => cases h
  | cons q args ih =>
    rcases List.mem_cons.mp h with rfl | h
    · exact Nat.le_max_left _ _
    · exact Nat.le_trans (ih h) (Nat.le_max_right _ _)

/-- A call: the tokens that name the function, and the arguments in parentheses. -/
def call (name : List Token.Kind) (callee : Callee) (args : List Phrase) : Phrase :=
  ⟨name ++ .openParen :: (separated args ++ [.closeParen]), .call callee (args.map shape),
    1 + deepest args⟩

end Phrase

/-! ### Derivations -/

/-- **The grammar of expressions:** the stratum derives the phrase. -/
inductive Derives : Stratum → Phrase → Prop
  | identifier (name : String) : Derives .primary (.atom (.identifier name) (.identifier name))
  | number (digits : String) : Derives .primary (.atom (.number digits) (.number digits))
  | text (contents : String) : Derives .primary (.atom (.text contents) (.text contents))
  | boolean (value : Bool) : Derives .primary (.atom (.boolean value) (.boolean value))
  | null : Derives .primary (.atom .null .null)
  | group {p : Phrase} : Derives .disjunction p → Derives .primary p.group
  | call (name : String) {args : List Phrase} : (∀ p ∈ args, Derives .disjunction p) →
      Derives .primary (.call [.identifier name] ⟨"", name⟩ args)
  | member (scope name : String) {args : List Phrase} : (∀ p ∈ args, Derives .disjunction p) →
      Derives .primary (.call [.identifier scope, .dot, .identifier name] ⟨scope, name⟩ args)
  | sign {op : Operator} {p : Phrase} : op ∈ [Operator.minus, .not] → Derives .sign p →
      Derives .sign (.sign op p)
  | power {l r : Phrase} : Derives .sign l → Derives .power r →
      Derives .power (l.binary .power r)
  | binary {s : Stratum} {op : Operator} {l r : Phrase} : op ∈ s.operators → Derives s l →
      Derives s.tighter r → Derives s (l.binary op r)
  | tighter {s : Stratum} {p : Phrase} : Derives s.tighter p → Derives s p

/-- **The grammar of texts:** expressions on lines of their own, with empty lines anywhere. -/
inductive Program : List Token.Kind → List Phrase → Prop
  | finish : Program [.finish] []
  | newline {ks : List Token.Kind} {ps : List Phrase} : Program ks ps → Program (.newline :: ks) ps
  | last {p : Phrase} : Derives .disjunction p → Program (p.kinds ++ [.finish]) [p]
  | line {p : Phrase} {ks : List Token.Kind} {ps : List Phrase} : Derives .disjunction p →
      Program ks ps → Program (p.kinds ++ .newline :: ks) (p :: ps)

/-- **What a stratum derives, every looser one does.** -/
theorem Derives.loosen {s s' : Stratum} {p : Phrase} (d : Derives s p) (h : s'.rank ≤ s.rank) :
    Derives s' p := by
  obtain ⟨gap, hgap⟩ := Nat.exists_eq_add_of_le h
  induction gap generalizing s' with
  | zero => rwa [Stratum.rank_injective hgap.symm]
  | succ gap ih =>
    have hrank : s'.tighter.rank = s'.rank + 1 :=
      Stratum.rank_tighter (show s'.rank < s.rank by omega)
    exact .tighter (ih (by omega) (by omega))

theorem Derives.nesting_pos {s : Stratum} {p : Phrase} (d : Derives s p) : 1 ≤ p.nesting := by
  induction d with
  | identifier | number | text | boolean | null => exact Nat.le_refl 1
  | group | sign => exact Nat.le_add_right 1 _
  | call | member => exact Nat.le_add_right 1 _
  | power _ _ ihl | binary _ _ _ ihl => exact Nat.le_trans ihl (Nat.le_max_left _ _)
  | tighter _ ih => exact ih

/-- Whether an expression may begin with a token of this kind. -/
def Token.Kind.begins : Token.Kind → Bool
  | identifier _ | number _ | text _ | boolean _ | null | openParen => true
  | operator op => op.isSign
  | closeParen | comma | dot | newline | finish => false

theorem Derives.head {s : Stratum} {p : Phrase} (d : Derives s p) :
    ∃ k ks, p.kinds = k :: ks ∧ k.begins = true := by
  induction d with
  | identifier | number | text | boolean | null | group | call | member => exact ⟨_, _, rfl, rfl⟩
  | @sign op _ hop => exact ⟨_, _, rfl, by revert op; decide⟩
  | power _ _ ihl | binary _ _ _ ihl =>
    obtain ⟨k, ks, hk, h⟩ := ihl
    exact ⟨k, ks ++ _, by rw [Phrase.binary, hk, List.cons_append], h⟩
  | tighter _ ih => exact ih

theorem Derives.head_separated {s : Stratum} {p : Phrase} (d : Derives s p) (ps : List Phrase) :
    ∃ k ks, Phrase.separated (p :: ps) = k :: ks ∧ k.begins = true := by
  obtain ⟨k, ks, hk, h⟩ := d.head
  cases ps with
  | nil => exact ⟨k, ks, by rw [Phrase.separated_singleton, hk], h⟩
  | cons q qs => exact ⟨k, ks ++ _, by rw [Phrase.separated_cons, hk, List.cons_append], h⟩

end LanguageServer.Script
