import LanguageServer.Proofs.Script.Complete

/-! # How deep the parser may go

A bound on the nesting of expressions changes nothing but whether the parser gives up: `Agrees`. So
a text of the grammar is read as the grammar says, or the parser complains that it nests too deep.

* `expression_agrees`: a parser with a smaller bound, by induction on it, one lemma for each reader;
* `Program.reads_or_gives_up`: the statements of a whole text. -/

namespace LanguageServer.Script

/-- The parser has given up on an expression that nests too deep. -/
def GivesUp {α : Type} (r : Except ParseError α) : Prop :=
  ∃ offset, r = .error ⟨.nestedTooDeeply, offset⟩

/-- The first reading is the second, or the parser has given up. -/
def Agrees {α : Type} (r r' : Except ParseError α) : Prop := GivesUp r ∨ r = r'

/-- Readings that hand on the errors of readings that agree, agree if they do where these are
equal. -/
theorem Agrees.elim {α β : Type} {r r' : Except ParseError α} {s s' : Except ParseError β}
    (h : Agrees r r') (herror : ∀ e, r = .error e → s = .error e) (hsame : r = r' → Agrees s s') :
    Agrees s s' := by
  rcases h with ⟨offset, hr⟩ | hr
  · exact Or.inl ⟨offset, herror _ hr⟩
  · exact hsame hr

section Operand
variable {nested nested' : ExprReader} {bound : Nat}
  (hn : ∀ floor ts, Agrees (nested floor ts) (nested' floor ts))

include hn

theorem argumentList_agrees (read : List Expr) (ts : List Token) (h : ts.length ≤ bound) :
    Agrees (argumentList nested read ts h) (argumentList nested' read ts h) := by
  refine (hn 0 ts).elim (fun e he => by rw [argumentList.eq_def, he]) fun heq => ?_
  rw [argumentList.eq_def nested, argumentList.eq_def nested', heq]
  cases nested' 0 ts with
  | error e => exact Or.inr rfl
  | ok arg =>
    simp only
    split
    · next rest shorter _ _ =>
      have : rest.length < ts.length := shorter
      exact argumentList_agrees (arg.value :: read) rest _
    · exact Or.inr rfl
termination_by ts.length

theorem call_agrees (callee : Callee) (start : Span) (ts : List Token) (h : ts.length ≤ bound) :
    Agrees (call nested callee start ts h) (call nested' callee start ts h) := by
  unfold call
  split
  · exact Or.inr rfl
  · refine (argumentList_agrees hn [] ts h).elim (fun e he => by rw [he]) fun heq => ?_
    exact Or.inr (by rw [heq])

theorem named_agrees (name : String) (span : Span) (ts : List Token) (h : ts.length ≤ bound) :
    Agrees (named nested name span ts h) (named nested' name span ts h) := by
  unfold named
  split
  · exact call_agrees hn _ _ _ _
  · exact call_agrees hn _ _ _ _
  · exact Or.inr rfl
  · exact Or.inr rfl
  · exact Or.inr rfl

theorem operand_agrees (ts : List Token) : Agrees (operand nested ts) (operand nested' ts) := by
  match ts with
  | [] => exact Or.inr rfl
  | ⟨kind, span⟩ :: ts =>
    unfold operand
    cases kind with
    | identifier name => exact named_agrees hn name span ts _
    | operator op =>
      simp only
      split_ifs with hsign
      · refine (hn Operator.signStrength ts).elim (fun e he => by rw [he]) fun heq => ?_
        exact Or.inr (by rw [heq])
      · exact Or.inr rfl
    | openParen =>
      refine (hn 0 ts).elim (fun e he => by simp only [he]) fun heq => ?_
      exact Or.inr (by simp only [heq])
    | number | text | boolean | null | closeParen | comma | dot | newline | finish =>
      exact Or.inr rfl

theorem chain_agrees (floor : Nat) (left : Expr) (ts : List Token) (h : ts.length ≤ bound) :
    Agrees (chain nested floor left ts h) (chain nested' floor left ts h) := by
  rw [chain.eq_def nested, chain.eq_def nested']
  split
  · next op opSpan rest h =>
    split
    · exact Or.inr rfl
    · next l r hop =>
      split_ifs with hfloor
      · exact Or.inr rfl
      · refine (hn r rest).elim (fun e he => by rw [he]) fun heq => ?_
        rw [heq]
        cases nested' r rest with
        | error e => exact Or.inr rfl
        | ok right =>
          have : right.rest.length < rest.length + 1 := Nat.lt_succ_of_le right.le_bound
          exact chain_agrees floor _ right.rest _
  · exact Or.inr rfl
termination_by ts.length

end Operand

/-- **A parser that may go less deep** gives up, or reads the same. -/
theorem expression_agrees {level level' : Nat} (h : level ≤ level') (floor : Nat)
    (ts : List Token) : Agrees (expression level floor ts) (expression level' floor ts) := by
  induction level generalizing level' floor ts with
  | zero => exact Or.inl ⟨_, rfl⟩
  | succ level ih =>
    obtain ⟨level', rfl⟩ : ∃ n, level' = n + 1 := ⟨level' - 1, by omega⟩
    have hn : ∀ floor ts, Agrees (expression level floor ts) (expression level' floor ts) :=
      ih (Nat.le_of_succ_le_succ h)
    refine (operand_agrees hn ts).elim (fun e he => by rw [expression, he]) fun heq => ?_
    rw [expression, expression, heq]
    cases operand (expression level') ts with
    | error e => exact Or.inr rfl
    | ok left => exact chain_agrees hn floor _ _ _

/-! ### Whole texts -/

theorem Derives.statements_or_gives_up {p : Phrase} (d : Derives .disjunction p)
    {front : List Token} (hk : front.map Token.kind = p.kinds) {t : Token}
    (ht : t.kind.ends = true) (ts : List Token) (read : List Expr) :
    GivesUp (statements read (front ++ t :: ts)) ∨ ∃ e : Expr, e.shape = p.shape ∧
      statements read (front ++ t :: ts) = afterStatement (e :: read) (t :: ts) := by
  obtain ⟨e, hle, hshape, he⟩ := (d.reads (Nat.le_max_right maxNesting _)).before hk ht ts
  obtain ⟨k, ks, hkinds, hbegins⟩ := d.head
  obtain ⟨span, rest, rfl, -⟩ := exists_of_kinds_cons (hk.trans hkinds)
  have hline : statements read (⟨k, span⟩ :: rest ++ t :: ts) =
      (plain (expression maxNesting 0 (⟨k, span⟩ :: rest ++ t :: ts))).bind
        fun statement => afterStatement (statement.1 :: read) statement.2 := by
    refine statements_line ?_ ?_ read _
    · intro h; cases h; cases hbegins
    · intro h; cases h; cases hbegins
  have hagrees := expression_agrees (Nat.le_max_left maxNesting p.nesting) 0
    (⟨k, span⟩ :: rest ++ t :: ts)
  rcases hagrees with ⟨offset, hdeep⟩ | hsame
  · exact Or.inl ⟨offset, by rw [hline, hdeep]; rfl⟩
  · exact Or.inr ⟨e, hshape, by rw [hline, hsame, he]; rfl⟩

/-- **The parser reads every text of the grammar,** or gives up on a phrase that nests too deep. -/
theorem Program.reads_or_gives_up {ks : List Token.Kind} {ps : List Phrase} (h : Program ks ps)
    {ts : List Token} (hk : ts.map Token.kind = ks) (read : List Expr) :
    GivesUp (statements read ts) ∨ ∃ es : List Expr,
      es.map Expr.shape = ps.map Phrase.shape ∧ statements read ts = .ok (read.reverse ++ es) := by
  induction h generalizing ts read with
  | finish =>
    obtain ⟨span, rfl⟩ := exists_of_kinds_singleton hk
    exact Or.inr ⟨[], rfl, by rw [statements.eq_def, List.append_nil]⟩
  | newline _ ih =>
    obtain ⟨span, rest, rfl, hrest⟩ := exists_of_kinds_cons hk
    have hskip : statements read (⟨.newline, span⟩ :: rest) = statements read rest := by
      rw [statements.eq_def]
    rw [hskip]
    exact ih hrest read
  | @last p d =>
    obtain ⟨front, _, rfl, hfront, hend⟩ := List.map_eq_append_iff.mp hk
    obtain ⟨span, rfl⟩ := exists_of_kinds_singleton hend
    rcases d.statements_or_gives_up hfront (t := ⟨.finish, span⟩) rfl [] read with
      hdeep | ⟨e, hshape, heq⟩
    · exact Or.inl hdeep
    · exact Or.inr ⟨[e], by simp [hshape], by rw [heq]; simp [afterStatement]⟩
  | @line p _ ps d _ ih =>
    obtain ⟨front, _, rfl, hfront, hend⟩ := List.map_eq_append_iff.mp hk
    obtain ⟨span, rest, rfl, hrest⟩ := exists_of_kinds_cons hend
    rcases d.statements_or_gives_up hfront (t := ⟨.newline, span⟩) rfl rest read with
      hdeep | ⟨e, hshape, heq⟩
    · exact Or.inl hdeep
    · rw [heq, afterStatement]
      rcases ih hrest (e :: read) with hdeep | ⟨es, hes, hread⟩
      · exact Or.inl hdeep
      · exact Or.inr ⟨e :: es, by simp [hshape, hes], by rw [hread]; simp⟩

end LanguageServer.Script
