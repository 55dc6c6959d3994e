import LanguageServer.Proofs.Script.Sound

/-! # The tokens an expression is read from

`Covers front e` says that the tokens `front`, with the places they stand at, are read as `e`: what
each node was made of and where its span comes from. The levels of the operators are left out; they
decide which reading is taken, not what a reading looks like.

* `expression_covers`: by induction on the level, one lemma for each reader;
* `statements_covers`: the statements of a whole text. -/

namespace LanguageServer.Script

/-- The tokens of arguments with commas between them. -/
inductive Joined : List (List Token) → List Token → Prop
  | nil : Joined [] []
  | single (front : List Token) : Joined [front] front
  | cons {second : List Token} {fronts : List (List Token)} {ts : List Token} (front : List Token)
      (comma : Span) : Joined (second :: fronts) ts →
      Joined (front :: second :: fronts) (front ++ ⟨.comma, comma⟩ :: ts)

/-- The tokens that name the function of a call, and the place of the first. -/
inductive Names : List Token → Callee → Span → Prop
  | bare (name : String) (span : Span) : Names [⟨.identifier name, span⟩] ⟨"", name⟩ span
  | member (scope name : String) (span dot after : Span) :
      Names [⟨.identifier scope, span⟩, ⟨.dot, dot⟩, ⟨.identifier name, after⟩] ⟨scope, name⟩ span

/-- **The tokens are read as the expression.** -/
inductive Covers : List Token → Expr → Prop
  | identifier (name : String) (span : Span) :
      Covers [⟨.identifier name, span⟩] (.identifier name span)
  | number (digits : String) (span : Span) : Covers [⟨.number digits, span⟩] (.number digits span)
  | text (contents : String) (span : Span) : Covers [⟨.text contents, span⟩] (.text contents span)
  | boolean (value : Bool) (span : Span) : Covers [⟨.boolean value, span⟩] (.boolean value span)
  | null (span : Span) : Covers [⟨.null, span⟩] (.null span)
  | group {front : List Token} {e : Expr} (start close : Span) : Covers front e →
      Covers (⟨.openParen, start⟩ :: (front ++ [⟨.closeParen, close⟩])) e
  | call {name inside : List Token} {callee : Callee} {start : Span}
      {args : List (List Token × Expr)} (paren close : Span) : Names name callee start →
      (∀ arg ∈ args, Covers arg.1 arg.2) → Joined (args.map Prod.fst) inside →
      Covers (name ++ ⟨.openParen, paren⟩ :: (inside ++ [⟨.closeParen, close⟩]))
        (.call callee (args.map Prod.snd) (start.join close))
  | sign {op : Operator} {front : List Token} {e : Expr} (span : Span) : op.isSign = true →
      Covers front e → Covers (⟨.operator op, span⟩ :: front) (.unary op e (span.join e.span))
  | binary {op : Operator} {l r : List Token} {left right : Expr} (span : Span) :
      op.strength?.isSome = true → Covers l left → Covers r right →
      Covers (l ++ ⟨.operator op, span⟩ :: r) (.binary left op right (left.span.join right.span))

/-- The reader takes tokens off the front and reads them. -/
def Covering (nested : ExprReader) : Prop :=
  ∀ ⦃floor : Nat⦄ ⦃ts : List Token⦄ ⦃e : Expr⦄ ⦃rest : List Token⦄,
    plain (nested floor ts) = .ok (e, rest) → ∃ front, ts = front ++ rest ∧ Covers front e

section Operand
variable {nested : ExprReader} {bound : Nat}

theorem argumentList_covers (hs : Covering nested) {read es : List Expr} {ts rest : List Token}
    {h : ts.length ≤ bound} (ha : plain (argumentList nested read ts h) = .ok (es, rest)) :
    ∃ (arg : List Token × Expr) (args : List (List Token × Expr)) (inside : List Token),
      es = read.reverse ++ (arg :: args).map Prod.snd ∧ ts = inside ++ rest ∧
      (∀ a ∈ arg :: args, Covers a.1 a.2) ∧ Joined ((arg :: args).map Prod.fst) inside := by
  rw [argumentList.eq_def] at ha
  cases harg : nested 0 ts with
  | error e => rw [harg] at ha; cases ha
  | ok arg =>
    obtain ⟨e, out, hle⟩ := arg
    obtain ⟨front, hts, hcovers⟩ := hs (congrArg plain harg)
    rw [harg] at ha
    simp only at ha hts
    split at ha
    · next comma after shorter =>
      have : after.length < ts.length := shorter
      obtain ⟨arg, args, inside, rfl, rfl, hargs, hjoined⟩ := argumentList_covers hs ha
      refine ⟨(front, e), arg :: args, front ++ ⟨.comma, comma⟩ :: inside, by simp, by simp [hts],
        List.forall_mem_cons.mpr ⟨hcovers, hargs⟩, .cons front comma hjoined⟩
    · cases ha
      exact ⟨(front, e), [], front, by simp, hts, by simpa using hcovers, .single front⟩
termination_by ts.length

theorem call_covers (hs : Covering nested) {callee : Callee} {start : Span} {e : Expr}
    {ts rest : List Token} {h : ts.length ≤ bound}
    (hc : plain (call nested callee start ts h) = .ok (e, rest)) {name : List Token}
    (hname : Names name callee start) (paren : Span) :
    ∃ front, name ++ ⟨.openParen, paren⟩ :: ts = front ++ rest ∧ Covers front e := by
  unfold call at hc
  split at hc
  · next close after _ =>
    cases hc
    exact ⟨name ++ [⟨.openParen, paren⟩, ⟨.closeParen, close⟩], by simp,
      @Covers.call name [] callee start [] paren close hname (by simp) .nil⟩
  · split at hc
    · cases hc
    · next args hargs =>
      obtain ⟨arg, args, inside, hes, rfl, hcovers, hjoined⟩ :=
        argumentList_covers hs (congrArg plain hargs)
      split at hc
      · cases hc
      · next close hclose =>
        have hrest := closing_sound (congrArg plain hclose)
        cases hc
        refine ⟨name ++ ⟨.openParen, paren⟩ :: (inside ++ [⟨.closeParen, close.value⟩]), ?_, ?_⟩
        · rw [hrest]; simp [Taken.map]
        · simp only [Taken.map, hes]
          exact .call paren close.value hname hcovers hjoined

theorem named_covers (hs : Covering nested) {name : String} {span : Span} {e : Expr}
    {ts rest : List Token} {h : ts.length ≤ bound}
    (hn : plain (named nested name span ts h) = .ok (e, rest)) :
    ∃ front, ⟨.identifier name, span⟩ :: ts = front ++ rest ∧ Covers front e := by
  unfold named at hn
  split at hn
  · exact call_covers hs hn (.bare name span) _
  · exact call_covers hs hn (.member name _ span _ _) _
  · cases hn
  · cases hn
  · cases hn
    exact ⟨[⟨.identifier name, span⟩], rfl, .identifier name span⟩

theorem operand_covers (hs : Covering nested) {ts rest : List Token} {e : Expr}
    (ho : plain (operand nested ts) = .ok (e, rest)) :
    ∃ front, ts = front ++ rest ∧ Covers front e := by
  match ts with
  | [] => cases ho
  | ⟨kind, span⟩ :: ts =>
    unfold operand at ho
    cases kind with
    | identifier name => exact named_covers hs ho
    | number digits => cases ho; exact ⟨[_], rfl, .number digits span⟩
    | text contents => cases ho; exact ⟨[_], rfl, .text contents span⟩
    | boolean value => cases ho; exact ⟨[_], rfl, .boolean value span⟩
    | null => cases ho; exact ⟨[_], rfl, .null span⟩
    | operator op =>
      simp only at ho
      split at ho
      · next hsign =>
        split at ho
        · cases ho
        · next inner hinner =>
          obtain ⟨front, hts, hcovers⟩ := hs (congrArg plain hinner)
          cases ho
          exact ⟨⟨.operator op, span⟩ :: front, congrArg _ hts, .sign span hsign hcovers⟩
      · cases ho
    | openParen =>
      simp only at ho
      split at ho
      · cases ho
      · next inner hinner =>
        obtain ⟨front, hts, hcovers⟩ := hs (congrArg plain hinner)
        split at ho
        · cases ho
        · next close hclose =>
          have hrest := closing_sound (congrArg plain hclose)
          cases ho
          refine ⟨_, ?_, .group span close.value hcovers⟩
          exact congrArg (List.cons _) (hts.trans (by rw [hrest]; simp [Taken.map]))
    | closeParen | comma | dot | newline | finish => cases ho

/-- **The loop over infix operators** goes on with the tokens of its left operand. -/
theorem chain_covers (hs : Covering nested) {floor : Nat} {left e : Expr} {l ts rest : List Token}
    {h : ts.length ≤ bound} (hl : Covers l left)
    (hc : plain (chain nested floor left ts h) = .ok (e, rest)) :
    ∃ more, ts = more ++ rest ∧ Covers (l ++ more) e := by
  by_cases hbinds : Binds floor ts
  · obtain ⟨op, span, after, leftStrength, rightStrength, rfl, hop, hle⟩ := hbinds
    rw [chain.eq_def] at hc
    simp only [hop, if_neg (Nat.not_lt.mpr hle)] at hc
    split at hc
    · cases hc
    · next right hright =>
      obtain ⟨r, hafter, hr⟩ := hs (congrArg plain hright)
      have : right.rest.length < (⟨.operator op, span⟩ :: after).length :=
        Nat.lt_succ_of_le right.le_bound
      have hnew := Covers.binary span (by rw [hop]; rfl) hl hr
      obtain ⟨more, hmore, hcovers⟩ := chain_covers hs hnew hc
      refine ⟨⟨.operator op, span⟩ :: (r ++ more), ?_, by simpa using hcovers⟩
      rw [hafter, hmore]
      simp
  · rw [chain_stop h hbinds] at hc
    cases hc
    exact ⟨[], rfl, by simpa using hl⟩
termination_by ts.length

end Operand

/-- **What the parser takes for an expression is read as it.** -/
theorem expression_covers (level : Nat) : Covering (expression level) := by
  induction level with
  | zero => intro floor ts e rest h; cases h
  | succ level ih =>
    intro floor ts e rest h
    rw [expression] at h
    split at h
    · cases h
    · next left hleft =>
      obtain ⟨l, hts, hl⟩ := operand_covers ih (congrArg plain hleft)
      obtain ⟨more, hmore, hcovers⟩ := chain_covers ih hl h
      exact ⟨l ++ more, by rw [hts, hmore, List.append_assoc], hcovers⟩

/-- **The statements of a text are read from tokens of it, one after the other.** -/
theorem statements_covers {read es : List Expr} {ts : List Token}
    (h : statements read ts = .ok es) :
    ∃ lines : List (List Token × Expr), es = read.reverse ++ lines.map Prod.snd ∧
      (∀ line ∈ lines, Covers line.1 line.2) ∧ (lines.map Prod.fst).flatten.Sublist ts := by
  match ts with
  | [] =>
    rw [statements.eq_def] at h
    cases h
    exact ⟨[], by simp, by simp, List.Sublist.refl _⟩
  | t :: ts =>
    by_cases h1 : t.kind = .finish
    · obtain ⟨_, span⟩ := t
      cases h1
      rw [statements.eq_def] at h
      cases h
      exact ⟨[], by simp, by simp, List.nil_sublist _⟩
    by_cases h2 : t.kind = .newline
    · obtain ⟨_, span⟩ := t
      cases h2
      rw [statements.eq_def] at h
      obtain ⟨lines, hes, hlines, hsub⟩ := statements_covers h
      exact ⟨lines, hes, hlines, hsub.cons _⟩
    rw [statements_line h2 h1] at h
    cases he : plain (expression maxNesting 0 (t :: ts)) with
    | error e => rw [he] at h; cases h
    | ok statement =>
      obtain ⟨e, rest⟩ := statement
      obtain ⟨front, hts, hcovers⟩ := expression_covers maxNesting he
      rw [he] at h
      change afterStatement (e :: read) rest = .ok es at h
      unfold afterStatement at h
      split at h
      · next span after =>
        have hless : after.length < (t :: ts).length := by
          rw [hts, List.length_append, List.length_cons]
          omega
        obtain ⟨lines, rfl, hlines, hsub⟩ := statements_covers h
        refine ⟨(front, e) :: lines, by simp, List.forall_mem_cons.mpr ⟨hcovers, hlines⟩, ?_⟩
        rw [hts]
        exact (List.Sublist.refl front).append (hsub.cons _)
      · next span after =>
        cases h
        refine ⟨[(front, e)], by simp, by simpa using hcovers, ?_⟩
        rw [hts]
        simp
      · cases h
termination_by ts.length
decreasing_by
  · exact Nat.lt_succ_self _
  · exact hless

end LanguageServer.Script
