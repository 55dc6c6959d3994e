import LanguageServer.Proofs.Script.Complete
import LanguageServer.Proofs.Script.Lookahead

/-! # Statements line by line

A line of tokens is read as at most one statement, or the parser complains, and neither depends on
where the line stands, on the statements before it or on what comes behind it: `LinesRead`,
`LinesFail`. Both compose over the end of a line.

* `line_cases`: one line, from what its expression depends on;
* `LinesRead.append`, `LinesFail.append_left`, `LinesFail.append_right`: two pieces;
* `lines_cases`: several lines, by induction on the number of tokens. -/

namespace LanguageServer.Script

/-! ### Lines of tokens -/

/-- The tokens begin with the end of a line. -/
inductive LineEnd : List Token → Prop
  | newline (span : Span) (rest : List Token) : LineEnd (⟨.newline, span⟩ :: rest)
  | finish (span : Span) (rest : List Token) : LineEnd (⟨.finish, span⟩ :: rest)

theorem LineEnd.ahead_eq {ts : List Token} (h : LineEnd ts) : ahead ts = some .newline := by
  cases h <;> rfl

theorem LineEnd.exists_of_append {front back l tail : List Token} (h : LineEnd tail)
    (hfront : InLine front) (heq : l ++ tail = front ++ back) :
    ∃ k, l = front ++ k ∧ back = k ++ tail := by
  rcases List.append_eq_append_iff.mp heq with ⟨k, rfl, rfl⟩ | ⟨k, rfl, rfl⟩
  · cases k with
    | nil => exact ⟨[], by simp, rfl⟩
    | cons t k =>
      have hends : t.kind.endsLine = false := hfront t (by simp)
      cases h <;> cases hends
  · exact ⟨k, rfl, rfl⟩

/-- **The lines of tokens are read as the statements,** at the end of the text and at the end of a
line, wherever they stand, whatever the parser has read before and whatever comes behind. -/
structure LinesRead (l : List Token) (es : List Expr) : Prop where
  finish : ∀ ρ read span rest,
    statements read (movedBefore ρ (⟨.finish, span⟩ :: rest) l) =
      .ok (read.reverse ++ es.map (Expr.move ρ))
  newline : ∀ ρ read span rest,
    statements read (movedBefore ρ (⟨.newline, span⟩ :: rest) l) =
      statements ((es.map (Expr.move ρ)).reverse ++ read) rest

/-- The parser complains about the lines of tokens, wherever they stand, whatever it has read before
and whatever comes behind. -/
def LinesFail (l : List Token) : Prop :=
  ∀ ρ read tail, LineEnd tail → ∃ e, statements read (movedBefore ρ tail l) = .error e

theorem linesRead_nil : LinesRead [] [] where
  finish ρ read span rest := by
    rw [movedBefore, List.map_nil, List.nil_append, statements.eq_def, List.map_nil,
      List.append_nil]
  newline ρ read span rest := by
    rw [movedBefore, List.map_nil, List.nil_append, statements.eq_def, List.map_nil]
    rfl

theorem afterStatement_inLine {t : Token} (ht : t.kind.endsLine = false) (read : List Expr)
    (ts : List Token) : ∃ e, afterStatement read (t :: ts) = .error e := by
  obtain ⟨kind, span⟩ := t
  cases kind with
  | newline | finish => cases ht
  | _ => exact ⟨_, rfl⟩

/-- **One line of tokens** is read as at most one statement, or the parser complains. -/
theorem line_cases {l : List Token} (hl : InLine l) :
    (∃ es, es.length ≤ 1 ∧ LinesRead l es) ∨ LinesFail l := by
  cases l with
  | nil => exact Or.inl ⟨[], Nat.zero_le 1, linesRead_nil⟩
  | cons t l =>
    -- what is settled before the end of the text is settled before every end of a line
    obtain ⟨front, tail, o, hts, hfront, hline⟩ := line_settled hl.head (l ++ [⟨.finish, ⟨0, 0⟩⟩])
    rw [← List.cons_append] at hts
    obtain ⟨k, hl', rfl⟩ := (LineEnd.finish ⟨0, 0⟩ []).exists_of_append hfront hts
    rw [hl'] at hl ⊢
    have hline ρ read {tail} (htail : LineEnd tail) := hline ρ read (movedBefore ρ tail k)
      (ahead_movedBefore ρ (htail.ahead_eq.trans (LineEnd.finish ⟨0, 0⟩ []).ahead_eq.symm) k)
    simp only [← movedBefore_append] at hline
    cases o with
    | fault why => exact Or.inr fun ρ read tail htail => ⟨_, hline ρ read htail⟩
    | missing => exact Or.inr fun ρ read tail htail => ⟨_, hline ρ read htail⟩
    | value e =>
      cases k with
      | nil =>
        refine Or.inl ⟨[e], Nat.le_refl 1, fun ρ read span rest => ?_, fun ρ read span rest => ?_⟩
        · rw [hline ρ read (.finish span rest)]
          exact congrArg _ List.reverse_cons
        · exact hline ρ read (.newline span rest)
      | cons u k =>
        have hgoes : u.kind.endsLine = false := hl u (by simp)
        refine Or.inr fun ρ read tail htail => ?_
        rw [hline ρ read htail]
        exact afterStatement_inLine (t := u.move ρ) hgoes (e.move ρ :: read) (movedBefore ρ tail k)

/-! ### Several lines -/

theorem LinesRead.append {l m : List Token} {es fs : List Expr} (hl : LinesRead l es)
    (hm : LinesRead m fs) (span : Span) : LinesRead (l ++ ⟨.newline, span⟩ :: m) (es ++ fs) where
  finish ρ read last rest := by
    rw [movedBefore_append, movedBefore_cons, hl.newline, hm.finish]
    simp
  newline ρ read last rest := by
    rw [movedBefore_append, movedBefore_cons, hl.newline, hm.newline]
    simp

theorem LinesFail.append_left {l : List Token} (hl : LinesFail l) (span : Span) (m : List Token) :
    LinesFail (l ++ ⟨.newline, span⟩ :: m) := by
  intro ρ read tail htail
  rw [movedBefore_append, movedBefore_cons]
  exact hl ρ read _ (.newline _ _)

theorem LinesFail.append_right {l m : List Token} {es : List Expr} (hm : LinesFail m)
    (hl : LinesRead l es) (span : Span) : LinesFail (l ++ ⟨.newline, span⟩ :: m) := by
  intro ρ read tail htail
  rw [movedBefore_append, movedBefore_cons, hl.newline]
  exact hm ρ _ tail htail

/-- Tokens of which none ends the text are one line, or a line and more. -/
theorem inLine_or_newline {l : List Token} (hl : ∀ t ∈ l, t.kind ≠ .finish) :
    InLine l ∨ ∃ front span back, l = front ++ ⟨.newline, span⟩ :: back ∧ InLine front := by
  induction l with
  | nil => exact Or.inl .nil
  | cons t l ih =>
    obtain ⟨ht, hl⟩ := List.forall_mem_cons.mp hl
    by_cases hnewline : t.kind = .newline
    · obtain ⟨kind, span⟩ := t
      cases hnewline
      exact Or.inr ⟨[], span, l, rfl, .nil⟩
    · have hends := endsLine_eq_false hnewline ht
      rcases ih hl with hline | ⟨front, span, back, rfl, hfront⟩
      · exact Or.inl (List.forall_mem_cons.mpr ⟨hends, hline⟩)
      · exact Or.inr ⟨t :: front, span, back, rfl, List.forall_mem_cons.mpr ⟨hends, hfront⟩⟩

/-- **Several lines of tokens** are read as statements, or the parser complains. -/
theorem lines_cases (l : List Token) (hl : ∀ t ∈ l, t.kind ≠ .finish) :
    (∃ es, LinesRead l es) ∨ LinesFail l := by
  rcases inLine_or_newline hl with hline | ⟨front, span, back, rfl, hfront⟩
  · exact (line_cases hline).imp_left fun ⟨es, _, hes⟩ => ⟨es, hes⟩
  · rcases line_cases hfront with ⟨es, -, hes⟩ | hfail
    · have hshorter : back.length < (front ++ ⟨.newline, span⟩ :: back).length := by
        rw [List.length_append, List.length_cons]
        omega
      rcases lines_cases back (fun t ht => hl t (by simp [ht])) with ⟨fs, hfs⟩ | hfail
      · exact Or.inl ⟨_, hes.append hfs span⟩
      · exact Or.inr (hfail.append_right hes span)
    · exact Or.inr (hfail.append_left span back)
termination_by l.length

/-! ### Lines where they are -/

section Here
variable {l : List Token} {es : List Expr}

theorem LinesRead.statements_finish (h : LinesRead l es) (read : List Expr) (span : Span)
    (rest : List Token) :
    statements read (l ++ ⟨.finish, span⟩ :: rest) = .ok (read.reverse ++ es) := by
  have hread := h.finish (.shift 0) read span rest
  rwa [movedBefore_shift_zero, map_move_shift_zero] at hread

theorem LinesRead.statements_newline (h : LinesRead l es) (read : List Expr) (span : Span)
    (rest : List Token) :
    statements read (l ++ ⟨.newline, span⟩ :: rest) = statements (es.reverse ++ read) rest := by
  have hread := h.newline (.shift 0) read span rest
  rwa [movedBefore_shift_zero, map_move_shift_zero] at hread

theorem LinesFail.statements (h : LinesFail l) (read : List Expr) {tail : List Token}
    (htail : LineEnd tail) : ∃ e, statements read (l ++ tail) = .error e := by
  have hfail := h (.shift 0) read tail htail
  rwa [movedBefore_shift_zero] at hfail

end Here

end LanguageServer.Script
