import LanguageServer.Proofs.Script.Exact
import LanguageServer.Proofs.Script.Readers
import LanguageServer.Proofs.Script.Relocate

/-! # What the parser depends on

The parser takes tokens from left to right, looks at the kind of the next one, and uses the places
of tokens only for the spans of nodes and the offsets of errors. So what it does is settled by the
tokens it has taken and the kind of the next: `Settled` says so of a reader of expressions, and
`Decides` of the parser of statements.

* `Settled.here`, `Settled.step`, `Settled.bind`: a reader that stops, one that takes a token, and
  one reader after the other;
* `expression_settled`: by induction on the level, one lemma for each reader;
* `statements_settled`: the statements of a whole text. -/

namespace LanguageServer.Script

/-! ### Tokens elsewhere -/

section Moved
variable (ρ : Relocation) (tail : List Token)

/-- The tokens, moved, before others. -/
def movedBefore (l : List Token) : List Token := l.map (Token.move ρ) ++ tail

theorem movedBefore_cons (kind : Token.Kind) (span : Span) (l : List Token) :
    movedBefore ρ tail (⟨kind, span⟩ :: l) = ⟨kind, span.move ρ⟩ :: movedBefore ρ tail l := rfl

theorem movedBefore_append (l m : List Token) :
    movedBefore ρ tail (l ++ m) = movedBefore ρ (movedBefore ρ tail m) l := by
  simp [movedBefore]

theorem movedBefore_shift_zero (l : List Token) : movedBefore (.shift 0) tail l = l ++ tail := by
  rw [movedBefore, List.map_congr_left fun t _ => t.move_shift_zero, List.map_id']

theorem ahead_movedBefore {tail tail' : List Token} (h : ahead tail' = ahead tail)
    (l : List Token) : ahead (movedBefore ρ tail' l) = ahead (l ++ tail) := by
  cases l with
  | nil => exact h
  | cons t l => rfl

end Moved

/-! ### Readings that are settled -/

/-- What a reader does before the token that it does not take: it gives a value, or complains. -/
inductive Outcome (α : Type)
  | value (a : α)
  | fault (why : Fault)
  | missing

namespace Outcome

/-- The reading with this outcome that leaves the tokens. -/
def before {α : Type} : Outcome α → List Token → Except ParseError (α × List Token)
  | value a, ts => .ok (a, ts)
  | fault why, ts => .error ⟨why, nextOffset ts⟩
  | missing, ts => .error (missingOperand ts)

/-- The same outcome with another value. -/
def map {α β : Type} (f : α → β) : Outcome α → Outcome β
  | value a => value (f a)
  | fault why => fault why
  | missing => missing

end Outcome

/-- **What the reader does is settled** by the tokens it takes off the front and the kind of the
next token: it does the same, up to places, wherever the tokens taken stand and whatever comes
behind the next one. -/
def Settled {α : Type} (move : Relocation → α → α)
    (read : Relocation → List Token → Except ParseError (α × List Token)) (ts : List Token) :
    Prop :=
  ∃ (front tail : List Token) (o : Outcome α), ts = front ++ tail ∧ InLine front ∧
    ∀ ρ tail', ahead tail' = ahead tail →
      read ρ (movedBefore ρ tail' front) = (o.map (move ρ)).before tail'

section Settled
variable {α β : Type} {move : Relocation → α → α} {move' : Relocation → β → β}
  {read read' : Relocation → List Token → Except ParseError (α × List Token)} {ts : List Token}

theorem Settled.here (o : Outcome α)
    (h : ∀ ρ ts', ahead ts' = ahead ts → read ρ ts' = (o.map (move ρ)).before ts') :
    Settled move read ts := ⟨[], ts, o, rfl, .nil, h⟩

theorem Settled.congr (h : Settled move read ts)
    (heq : ∀ ρ ts', ahead ts' = ahead ts → read' ρ ts' = read ρ ts') :
    Settled move read' ts := by
  obtain ⟨front, tail, o, rfl, hfront, hread⟩ := h
  exact ⟨front, tail, o, rfl, hfront, fun ρ tail' htail =>
    (heq ρ _ (ahead_movedBefore ρ htail front)).trans (hread ρ tail' htail)⟩

theorem Settled.step {t : Token} (ht : t.kind.endsLine = false)
    (h : Settled move (fun ρ ts => read ρ (t.move ρ :: ts)) ts) : Settled move read (t :: ts) := by
  obtain ⟨front, tail, o, rfl, hfront, hread⟩ := h
  exact ⟨t :: front, tail, o, rfl, List.forall_mem_cons.mpr ⟨ht, hfront⟩, hread⟩

theorem Settled.bind {next : Relocation → α × List Token → Except ParseError (β × List Token)}
    (h : Settled move read ts) (hnext : ∀ a front rest, ts = front ++ rest →
      Settled move' (fun ρ ts => next ρ (move ρ a, ts)) rest) :
    Settled move' (fun ρ ts => (read ρ ts).bind (next ρ)) ts := by
  obtain ⟨front, tail, o, rfl, hfront, hread⟩ := h
  cases o with
  | value a =>
    obtain ⟨front', tail, o, rfl, hfront', hnext⟩ := hnext a front tail rfl
    refine ⟨front ++ front', tail, o, (List.append_assoc ..).symm, ?_, fun ρ tail' htail => ?_⟩
    · exact List.forall_mem_append.mpr ⟨hfront, hfront'⟩
    · have hfirst := hread ρ _ (ahead_movedBefore ρ htail front')
      simp only [movedBefore_append, hfirst]
      exact hnext ρ tail' htail
  | fault why =>
    refine ⟨front, tail, .fault why, rfl, hfront, fun ρ tail' htail => ?_⟩
    simp only [hread ρ tail' htail]
    rfl
  | missing =>
    refine ⟨front, tail, .missing, rfl, hfront, fun ρ tail' htail => ?_⟩
    simp only [hread ρ tail' htail]
    rfl

theorem Settled.map (h : Settled move read ts) (f : Relocation → α → β) (g : α → β)
    (hf : ∀ ρ a, f ρ (move ρ a) = move' ρ (g a)) :
    Settled move' (fun ρ ts => (read ρ ts).map fun r => (f ρ r.1, r.2)) ts := by
  have hbind : Settled move' (fun ρ ts => (read ρ ts).bind fun r => .ok (f ρ r.1, r.2)) ts :=
    h.bind fun a _ _ _ => .here (.value (g a)) fun ρ ts' _ =>
      congrArg (fun b => Except.ok (b, ts')) (hf ρ a)
  refine hbind.congr fun ρ ts' _ => ?_
  cases read ρ ts' <;> rfl

end Settled

/-! ### Expressions -/

section Operand
variable {nested : ExprReader}

theorem closing_settled (ts : List Token) :
    Settled Span.move (fun _ ts => plain (closing ts (length_le_self ts))) ts := by
  by_cases hclose : ahead ts = some .closeParen
  · obtain ⟨span, rest, rfl⟩ := exists_of_ahead rfl hclose
    exact .step rfl (.here (.value span) fun _ _ _ => rfl)
  · refine .here (.fault .expectedCloseParen) fun _ ts' hts' => closing_fault _ ?_
    rwa [hts']

/-- What the reader of expressions does is settled, whatever the floor. -/
def SettledExpr (nested : ExprReader) : Prop :=
  ∀ floor ts, Settled Expr.move (fun _ ts => plain (nested floor ts)) ts

theorem argumentList_settled (hn : SettledExpr nested) (read : List Expr) (ts : List Token) :
    Settled (fun ρ => List.map (Expr.move ρ))
      (fun ρ ts => plain (argumentList nested (read.map (Expr.move ρ)) ts (length_le_self ts)))
      ts := by
  simp only [argumentList_eq]
  refine (hn 0 ts).bind fun arg front rest hts => ?_
  by_cases hcomma : ahead rest = some .comma
  · obtain ⟨span, rest, rfl⟩ := exists_of_ahead rfl hcomma
    have : rest.length < ts.length := by
      rw [hts, List.length_append, List.length_cons]
      omega
    exact .step rfl (argumentList_settled hn (arg :: read) rest)
  · refine .here (.value (arg :: read).reverse) fun ρ ts' hts' => ?_
    have hread : (Expr.move ρ arg :: read.map (Expr.move ρ)).reverse =
        (arg :: read).reverse.map (Expr.move ρ) := by simp
    rw [afterArgument_stop _ (by rwa [hts'])]
    exact congrArg (fun es => Except.ok (es, ts')) hread
termination_by ts.length

theorem call_settled (hn : SettledExpr nested) (callee : Callee) (start : Span)
    (ts : List Token) :
    Settled Expr.move
      (fun ρ ts => plain (call nested callee (start.move ρ) ts (length_le_self ts))) ts := by
  by_cases hclose : ahead ts = some .closeParen
  · obtain ⟨span, rest, rfl⟩ := exists_of_ahead rfl hclose
    refine .step rfl (.here (.value (.call callee [] (start.join span))) fun ρ ts' _ => ?_)
    exact congrArg (fun place => Except.ok (Expr.call callee [] place, ts'))
      (Span.move_join ρ start span).symm
  · refine ((argumentList_settled hn [] ts).bind fun args front rest _ => ?_).congr
      fun ρ ts' hts' => call_eq _ (by rwa [hts'])
    refine (closing_settled rest).map
      (fun ρ close => Expr.call callee (args.map (Expr.move ρ)) ((start.move ρ).join close))
      (fun close => Expr.call callee args (start.join close)) fun ρ close => ?_
    rw [Expr.move, Expr.moveAll_eq_map, Span.move_join]

theorem named_settled (hn : SettledExpr nested) (name : String) (span : Span) (ts : List Token) :
    Settled Expr.move
      (fun ρ ts => plain (operand nested (⟨.identifier name, span.move ρ⟩ :: ts))) ts := by
  by_cases hparen : ahead ts = some .openParen
  · obtain ⟨paren, inside, rfl⟩ := exists_of_ahead rfl hparen
    exact .step rfl ((call_settled hn ⟨"", name⟩ span inside).congr fun ρ ts' _ => call_bound _)
  by_cases hdot : ahead ts = some .dot
  · obtain ⟨dot, after, rfl⟩ := exists_of_ahead rfl hdot
    refine .step rfl ?_
    by_cases hmember : ∃ member, ahead after = some (.identifier member)
    · obtain ⟨member, hmember⟩ := hmember
      obtain ⟨place, after, rfl⟩ := exists_of_ahead rfl hmember
      refine .step rfl ?_
      by_cases hopen : ahead after = some .openParen
      · obtain ⟨paren, inside, rfl⟩ := exists_of_ahead rfl hopen
        exact .step rfl
          ((call_settled hn ⟨name, member⟩ span inside).congr fun ρ ts' _ => call_bound _)
      · exact .here (.fault .expectedOpenParen) fun ρ ts' hts' => named_no_paren _ (by rwa [hts'])
    · refine .here (.fault .expectedFunctionName) fun ρ ts' hts' => named_no_function _ ?_
      rw [hts']
      exact fun member h => hmember ⟨member, h⟩
  · exact .here (.value (.identifier name span)) fun ρ ts' hts' =>
      named_name _ (by rwa [hts']) (by rwa [hts'])

theorem operand_settled (hn : SettledExpr nested) (ts : List Token) :
    Settled Expr.move (fun _ ts => plain (operand nested ts)) ts := by
  cases ts with
  | nil => exact .here .missing fun ρ ts' hts' => operand_missing (Or.inl hts')
  | cons t ts =>
    obtain ⟨kind, span⟩ := t
    cases kind with
    | identifier name => exact .step rfl (named_settled hn name span ts)
    | number digits => exact .step rfl (.here (.value (.number digits span)) fun _ _ _ => rfl)
    | text contents => exact .step rfl (.here (.value (.text contents span)) fun _ _ _ => rfl)
    | boolean value => exact .step rfl (.here (.value (.boolean value span)) fun _ _ _ => rfl)
    | null => exact .step rfl (.here (.value (.null span)) fun _ _ _ => rfl)
    | operator op =>
      by_cases hop : op.isSign = true
      · have hsign : Settled Expr.move (fun ρ ts =>
            (plain (nested Operator.signStrength ts)).map fun inner =>
              (.unary op inner.1 ((span.move ρ).join inner.1.span), inner.2)) ts := by
          refine (hn Operator.signStrength ts).map
            (fun ρ e => Expr.unary op e ((span.move ρ).join e.span))
            (fun e => Expr.unary op e (span.join e.span)) fun ρ e => ?_
          rw [Expr.move, Span.move_join, Expr.span_move]
        exact .step rfl (hsign.congr fun ρ ts' _ => operand_sign hop (span.move ρ) ts')
      · have hbegins : (Token.Kind.operator op).begins = false := Bool.eq_false_iff.mpr hop
        exact .here (.fault .expectedExpression) fun ρ ts' hts' => operand_fault rfl hbegins hts'
    | openParen =>
      refine .step rfl (((hn 0 ts).bind fun inner _ rest _ => ?_).congr
        fun ρ ts' _ => operand_group (span.move ρ) ts')
      exact (closing_settled rest).map (fun ρ _ => inner.move ρ) (fun _ => inner) fun ρ _ => rfl
    | closeParen | comma | dot =>
      exact .here (.fault .expectedExpression) fun ρ ts' hts' => operand_fault rfl rfl hts'
    | newline | finish => exact .here .missing fun ρ ts' hts' => operand_missing (Or.inr hts')

theorem chain_settled (hn : SettledExpr nested) (floor : Nat) (left : Expr) (ts : List Token) :
    Settled Expr.move
      (fun ρ ts => plain (chain nested floor (left.move ρ) ts (length_le_self ts))) ts := by
  by_cases hbinds : Binds floor ts
  · obtain ⟨op, span, rest, l, r, rfl, hop, hle⟩ := hbinds
    refine .step rfl ?_
    refine ((hn r rest).bind fun right front after hrest => ?_).congr fun ρ ts' _ =>
      chain_eq (left.move ρ) hop hle _
    have : after.length < rest.length + 1 := by
      rw [hrest, List.length_append]
      omega
    refine (chain_settled hn floor
      (.binary left op right (left.span.join right.span)) after).congr fun ρ ts' _ => ?_
    rw [Expr.move, Span.move_join, Expr.span_move, Expr.span_move]
  · refine .here (.value left) fun ρ ts' hts' => ?_
    rw [chain_stop _ (by rwa [binds_iff_ahead, hts', ← binds_iff_ahead])]
    rfl
termination_by ts.length

end Operand

/-- **What the parser does with an expression is settled.** -/
theorem expression_settled (level : Nat) : SettledExpr (expression level) := by
  induction level with
  | zero => exact fun floor ts => .here (.fault .nestedTooDeeply) fun _ _ _ => rfl
  | succ level ih =>
    intro floor ts
    simp only [expression_eq]
    exact (operand_settled ih ts).bind fun left _ rest _ => chain_settled ih floor left rest

/-! ### Statements -/

/-- What the parser does with a line that starts with an expression is settled up to the end of the
expression. -/
theorem line_settled {t : Token} (ht : t.kind.endsLine = false) (ts : List Token) :
    ∃ (front tail : List Token) (o : Outcome Expr), t :: ts = front ++ tail ∧ InLine front ∧
      ∀ ρ read tail', ahead tail' = ahead tail →
        statements read (movedBefore ρ tail' front) =
          ((o.map (Expr.move ρ)).before tail').bind
            fun statement => afterStatement (statement.1 :: read) statement.2 := by
  obtain ⟨front, tail, o, hts, hfront, hread⟩ := expression_settled maxNesting 0 (t :: ts)
  refine ⟨front, tail, o, hts, hfront, fun ρ read tail' htail => ?_⟩
  have hahead := ahead_movedBefore ρ htail front
  rw [← hts, ahead_cons ht] at hahead
  obtain ⟨span, rest, hline⟩ := exists_of_ahead ht hahead
  rw [← hread ρ tail' htail, hline]
  refine statements_line ?_ ?_ read rest
  · intro h
    rw [show t.kind = .newline from h] at ht
    cases ht
  · intro h
    rw [show t.kind = .finish from h] at ht
    cases ht

/-- **What the parser does with tokens before one of the kind:** it reads the statements, or
complains about the next token, wherever the tokens stand, whatever it has read before and whatever
comes behind the next token. -/
def Decides (front : List Token) (kind : Token.Kind) (result : Except Fault (List Expr)) : Prop :=
  ∀ ρ read t behind, t.kind = kind →
    statements read (movedBefore ρ (t :: behind) front) =
      (result.map fun es => read.reverse ++ es.map (Expr.move ρ)).mapError
        fun why => ⟨why, t.span.start⟩

theorem decides_finish : Decides [] .finish (.ok []) := by
  rintro ρ read ⟨_, span⟩ behind rfl
  rw [movedBefore, List.map_nil, List.nil_append, statements.eq_def]
  simp [Except.map, Except.mapError]

theorem Decides.newline {front : List Token} {kind : Token.Kind}
    {result : Except Fault (List Expr)} (h : Decides front kind result) (span : Span) :
    Decides (⟨.newline, span⟩ :: front) kind result := by
  intro ρ read t behind ht
  rw [movedBefore_cons, statements.eq_def]
  exact h ρ read t behind ht

theorem Decides.statement {front back : List Token} {kind : Token.Kind}
    {result : Except Fault (List Expr)} (h : Decides back kind result) {e : Expr} {span : Span}
    (hline : ∀ ρ read (t : Token) after, t.kind = .newline →
      statements read (movedBefore ρ (t :: after) front) = statements (e.move ρ :: read) after) :
    Decides (front ++ ⟨.newline, span⟩ :: back) kind (result.map (e :: ·)) := by
  intro ρ read t behind ht
  rw [movedBefore_append, movedBefore_cons, hline ρ read _ _ rfl]
  refine (h ρ (e.move ρ :: read) t behind ht).trans ?_
  cases result with
  | ok es => simp [Except.map]
  | error why => rfl

theorem missingOperand_congr {t u : Token} (h : u.kind = t.kind) (ts us : List Token) :
    missingOperand (u :: us) = ⟨(missingOperand (t :: ts)).fault, u.span.start⟩ := by
  obtain ⟨kind, place⟩ := u
  obtain ⟨_, span⟩ := t
  obtain rfl := h
  cases kind <;> rfl

/-- **What the parser does with the tokens of a text is decided** by those it has taken and the kind
of the next. -/
theorem statements_settled {ts : List Token} (h : Finished ts) :
    ∃ front t behind result, ts = front ++ t :: behind ∧ (∀ u ∈ front, u.kind ≠ .finish) ∧
      Decides front t.kind result := by
  match ts with
  | [] => obtain ⟨all, span, heq, -⟩ := h; simp at heq
  | ⟨kind, span⟩ :: ts =>
    by_cases hfinish : kind = .finish
    · subst hfinish
      exact ⟨[], _, ts, .ok [], rfl, by simp, decides_finish⟩
    by_cases hnewline : kind = .newline
    · subst hnewline
      obtain ⟨front, u, behind, result, rfl, hfront, hdecides⟩ := statements_settled (h.tail hfinish)
      exact ⟨_ :: front, u, behind, result, rfl, List.forall_mem_cons.mpr ⟨hfinish, hfront⟩,
        hdecides.newline span⟩
    obtain ⟨front, tail, o, hts, hfront, hline⟩ :=
      line_settled (t := ⟨kind, span⟩) (endsLine_eq_false hnewline hfinish) ts
    rw [hts] at h ⊢
    have hunfinished := hfront.unfinished
    cases tail with
    | nil => exact absurd hunfinished (List.append_nil front ▸ h.not_unfinished)
    | cons u behind =>
      have hnext ρ read v after (hv : v.kind = u.kind) :=
        hline ρ read (v :: after) (ahead_congr hv after behind)
      cases o with
      | fault why => exact ⟨front, u, behind, .error why, rfl, hunfinished, hnext⟩
      | missing =>
        refine ⟨front, u, behind, .error (missingOperand (u :: behind)).fault, rfl, hunfinished,
          fun ρ read v after hv => (hnext ρ read v after hv).trans ?_⟩
        exact congrArg Except.error (missingOperand_congr hv behind after)
      | value e =>
        obtain ⟨kind, place⟩ := u
        cases kind with
        | finish =>
          refine ⟨front, _, behind, .ok [e], rfl, hunfinished, fun ρ read v after hv => ?_⟩
          obtain ⟨_, place⟩ := v
          obtain rfl := hv
          exact (hnext ρ read ⟨.finish, place⟩ after rfl).trans
            (congrArg Except.ok List.reverse_cons)
        | newline =>
          have hless : behind.length < (⟨kind, span⟩ :: ts : List Token).length := by
            rw [hts, List.length_append, List.length_cons]
            omega
          obtain ⟨back, v, after, result, rfl, hback, hdecides⟩ := statements_settled
            ((h.of_append (List.cons_ne_nil _ _)).tail nofun)
          refine ⟨front ++ ⟨.newline, place⟩ :: back, v, after, result.map (e :: ·), by simp, ?_, ?_⟩
          · exact List.forall_mem_append.mpr ⟨hunfinished, List.forall_mem_cons.mpr ⟨nofun, hback⟩⟩
          · refine hdecides.statement fun ρ read v after hv => ?_
            obtain ⟨_, place⟩ := v
            obtain rfl := hv
            exact hnext ρ read ⟨.newline, place⟩ after rfl
        | _ =>
          refine ⟨front, _, behind, .error .unexpectedToken, rfl, hunfinished,
            fun ρ read v after hv => ?_⟩
          obtain ⟨_, place⟩ := v
          obtain rfl := hv
          exact hnext ρ read ⟨_, place⟩ after rfl
termination_by ts.length
decreasing_by
  · exact Nat.lt_succ_self _
  · exact hless

section Parse
variable {front behind : List Token} {result : Except Fault (List Expr)} {t : Token} {text : String}

/-- What is decided of the tokens of a text is what its parse gives. -/
theorem Decides.parse_moved {kind : Token.Kind} (h : Decides front kind result) (ht : t.kind = kind)
    {ρ : Relocation} (hts : tokens text = .ok (movedBefore ρ (t :: behind) front)) :
    parse text = (result.map fun es => .block (es.map (Expr.move ρ)) ⟨0, text.length⟩).mapError
      fun why => ⟨why, t.span.start⟩ := by
  have hst := h ρ [] t behind ht
  cases result with
  | ok es => exact parse_eq_ok hts hst
  | error why => exact parse_eq_error hts hst

theorem Decides.parse_eq (h : Decides front t.kind result)
    (hts : tokens text = .ok (front ++ t :: behind)) :
    parse text = (result.map fun es => .block es ⟨0, text.length⟩).mapError
      fun why => ⟨why, t.span.start⟩ := by
  rw [← movedBefore_shift_zero] at hts
  simpa only [map_move_shift_zero] using h.parse_moved rfl hts

end Parse

end LanguageServer.Script
