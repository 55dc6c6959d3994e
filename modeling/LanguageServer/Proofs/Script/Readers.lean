import LanguageServer.Proofs.Script.Complete

/-! # The readers without their bounds

Each reader of the parser takes tokens off the front and looks at the next one. What it does is said
here by equations on `plain`, one for each way it can go, that tell these ways apart by `ahead`: the
kind of the next token. An expression is on one line, and one end of a line is as good for it as the
other, but for the complaint that an operand is missing.

* `closing_fault`, `call_eq`, `named_name`, `operand_sign`, `operand_group`: readers that do not
  loop;
* `argumentList_eq`, `chain_eq`: one round of each loop;
* `expression_eq`: an operand, then the loop over infix operators. -/

namespace LanguageServer.Script

/-! ### The next token -/

/-- Whether a line ends with a token of this kind. -/
def Token.Kind.endsLine : Token.Kind → Bool
  | newline | finish => true
  | _ => false

theorem endsLine_eq_false {kind : Token.Kind} (hnewline : kind ≠ .newline)
    (hfinish : kind ≠ .finish) : kind.endsLine = false := by
  cases kind with
  | newline => exact absurd rfl hnewline
  | finish => exact absurd rfl hfinish
  | _ => rfl

/-- None of the tokens ends a line. -/
def InLine (l : List Token) : Prop := ∀ t ∈ l, t.kind.endsLine = false

theorem InLine.nil : InLine [] := by simp [InLine]

theorem InLine.head {t : Token} {l : List Token} (h : InLine (t :: l)) :
    t.kind.endsLine = false := h t List.mem_cons_self

theorem InLine.unfinished {l : List Token} (h : InLine l) : ∀ t ∈ l, t.kind ≠ .finish := by
  intro t ht hfinish
  have hends := h t ht
  rw [hfinish] at hends
  cases hends

/-- What a reader sees of the tokens behind those it has taken: the kind of the next, where one end
of a line is as good as the other. -/
def ahead (ts : List Token) : Option Token.Kind :=
  ts.head?.map fun t => if t.kind.endsLine then .newline else t.kind

theorem ahead_cons {t : Token} (ht : t.kind.endsLine = false) (ts : List Token) :
    ahead (t :: ts) = some t.kind := by
  simp [ahead, ht]

theorem ahead_congr {t u : Token} (h : t.kind = u.kind) (ts us : List Token) :
    ahead (t :: ts) = ahead (u :: us) := by
  simp [ahead, h]

theorem exists_of_ahead {kind : Token.Kind} (hkind : kind.endsLine = false) {ts : List Token}
    (h : ahead ts = some kind) : ∃ span rest, ts = ⟨kind, span⟩ :: rest := by
  cases ts with
  | nil => cases h
  | cons t rest =>
    cases hends : t.kind.endsLine with
    | true =>
      simp only [ahead, List.head?_cons, Option.map_some, hends, if_true] at h
      cases h
      cases hkind
    | false =>
      rw [ahead_cons hends] at h
      cases h
      exact ⟨t.span, rest, rfl⟩

theorem ahead_ne (kind : Token.Kind) (hkind : kind.endsLine = false) {t : Token}
    (ht : t.kind ≠ kind) (ts : List Token) : ahead (t :: ts) ≠ some kind := by
  intro hahead
  obtain ⟨span, rest, heq⟩ := exists_of_ahead hkind hahead
  cases heq
  exact ht rfl

theorem binds_iff_ahead {limit : Nat} {ts : List Token} :
    Binds limit ts ↔
      ∃ op l r, ahead ts = some (.operator op) ∧ op.strength? = some (l, r) ∧ limit ≤ l := by
  constructor
  · rintro ⟨op, span, rest, l, r, rfl, hop, hle⟩
    exact ⟨op, l, r, rfl, hop, hle⟩
  · rintro ⟨op, l, r, hahead, hop, hle⟩
    obtain ⟨span, rest, rfl⟩ := exists_of_ahead rfl hahead
    exact ⟨op, span, rest, l, r, rfl, hop, hle⟩

/-- The complaint about tokens where an operand should begin, if they end or a line does. -/
def missingOperand : List Token → ParseError
  | ⟨.newline, span⟩ :: _ => ⟨.expectedExpression, span.start⟩
  | ts => ⟨.unexpectedEnd, nextOffset ts⟩

/-! ### Readings -/

theorem eq_error_of_plain {α : Type} {bound : Nat} {r : Reading α bound} {e : ParseError}
    (h : plain r = .error e) : r = .error e := by
  cases r with
  | error e' => cases h; rfl
  | ok t => cases h

section Readers
variable {nested : ExprReader} {bound bound' : Nat}

/-! ### Calls -/

theorem closing_fault {ts : List Token} (h : ts.length ≤ bound)
    (hahead : ahead ts ≠ some .closeParen) :
    plain (closing ts h) = .error ⟨.expectedCloseParen, nextOffset ts⟩ := by
  unfold closing
  split
  · exact absurd rfl hahead
  · rfl

/-- What comes behind an argument: a comma and another, or nothing of the list. -/
def afterArgument (nested : ExprReader) (read : List Expr) :
    List Token → Except ParseError (List Expr × List Token)
  | ⟨.comma, _⟩ :: rest => plain (argumentList nested read rest (length_le_self rest))
  | rest => .ok (read.reverse, rest)

theorem afterArgument_stop (read : List Expr) {ts : List Token} (h : ahead ts ≠ some .comma) :
    afterArgument nested read ts = .ok (read.reverse, ts) := by
  unfold afterArgument
  split
  · exact absurd rfl h
  · rfl

theorem argumentList_eq {bound : Nat} (read : List Expr) (ts : List Token)
    (h : ts.length ≤ bound) :
    plain (argumentList nested read ts h) =
      (plain (nested 0 ts)).bind fun arg => afterArgument nested (arg.1 :: read) arg.2 := by
  rw [argumentList.eq_def]
  cases nested 0 ts with
  | error e => rfl
  | ok arg =>
    obtain ⟨e, rest, hle⟩ := arg
    cases rest with
    | nil => rfl
    | cons t rest =>
      obtain ⟨kind, span⟩ := t
      cases kind with
      | comma =>
        have : rest.length < ts.length := hle
        -- the rest of the list is read under two bounds, and in the same way
        exact (argumentList_eq (e :: read) rest _).trans
          (argumentList_eq (e :: read) rest (length_le_self rest)).symm
      | _ => rfl
termination_by ts.length

theorem call_eq {callee : Callee} {start : Span} {ts : List Token} (h : ts.length ≤ bound)
    (hahead : ahead ts ≠ some .closeParen) :
    plain (call nested callee start ts h) =
      (plain (argumentList nested [] ts (length_le_self ts))).bind fun args =>
        (plain (closing args.2 (length_le_self args.2))).map fun close =>
          (.call callee args.1 (start.join close.1), close.2) := by
  rw [argumentList_eq, ← argumentList_eq [] ts h]
  unfold call
  split
  · exact absurd rfl hahead
  · cases argumentList nested [] ts h with
    | error e => rfl
    | ok args =>
      obtain ⟨args, rest, hle⟩ := args
      simp only [plain_ok, Except.bind]
      unfold closing
      cases rest with
      | nil => rfl
      | cons t rest =>
        obtain ⟨kind, span⟩ := t
        cases kind <;> rfl

theorem call_bound {callee : Callee} {start : Span} {ts : List Token} (h : ts.length ≤ bound) :
    plain (call nested callee start ts h) =
      plain (call nested callee start ts (length_le_self ts)) := by
  by_cases hclose : ahead ts = some .closeParen
  · obtain ⟨span, rest, rfl⟩ := exists_of_ahead rfl hclose
    rfl
  · rw [call_eq h hclose, call_eq (length_le_self ts) hclose]

theorem named_name {name : String} {span : Span} {ts : List Token} (h : ts.length ≤ bound)
    (hparen : ahead ts ≠ some .openParen) (hdot : ahead ts ≠ some .dot) :
    plain (named nested name span ts h) = .ok (.identifier name span, ts) := by
  unfold named
  split
  · exact absurd rfl hparen
  · exact absurd rfl hdot
  · exact absurd rfl hdot
  · exact absurd rfl hdot
  · rfl

theorem named_no_function {name : String} {span dot : Span} {ts : List Token}
    (h : (⟨.dot, dot⟩ :: ts : List Token).length ≤ bound)
    (hahead : ∀ member, ahead ts ≠ some (.identifier member)) :
    plain (named nested name span (⟨.dot, dot⟩ :: ts) h) =
      .error ⟨.expectedFunctionName, nextOffset ts⟩ := by
  cases ts with
  | nil => rfl
  | cons t ts =>
    obtain ⟨kind, place⟩ := t
    cases kind with
    | identifier member => exact absurd rfl (hahead member)
    | _ => rfl

theorem named_no_paren {name member : String} {span dot place : Span} {ts : List Token}
    (h : (⟨.dot, dot⟩ :: ⟨.identifier member, place⟩ :: ts : List Token).length ≤ bound)
    (hahead : ahead ts ≠ some .openParen) :
    plain (named nested name span (⟨.dot, dot⟩ :: ⟨.identifier member, place⟩ :: ts) h) =
      .error ⟨.expectedOpenParen, nextOffset ts⟩ := by
  cases ts with
  | nil => rfl
  | cons t ts =>
    obtain ⟨kind, place⟩ := t
    cases kind with
    | openParen => exact absurd rfl hahead
    | _ => rfl

/-! ### Operands -/

theorem operand_missing {ts : List Token} (h : ahead ts = none ∨ ahead ts = some .newline) :
    plain (operand nested ts) = .error (missingOperand ts) := by
  cases ts with
  | nil => rfl
  | cons t ts =>
    obtain ⟨kind, span⟩ := t
    cases kind with
    | newline | finish => rfl
    | _ => rcases h with h | h <;> cases h

theorem operand_fault {kind : Token.Kind} (hline : kind.endsLine = false)
    (hbegins : kind.begins = false) {ts : List Token} (h : ahead ts = some kind) :
    plain (operand nested ts) = .error ⟨.expectedExpression, nextOffset ts⟩ := by
  obtain ⟨span, rest, rfl⟩ := exists_of_ahead hline h
  cases kind with
  | operator op =>
    have hop : ¬ op.isSign = true := Bool.eq_false_iff.mp hbegins
    unfold operand
    simp only [if_neg hop]
    rfl
  | closeParen | comma | dot => rfl
  | newline | finish => cases hline
  | _ => cases hbegins

theorem operand_sign {op : Operator} (hop : op.isSign = true) (span : Span) (ts : List Token) :
    plain (operand nested (⟨.operator op, span⟩ :: ts)) =
      (plain (nested Operator.signStrength ts)).map fun inner =>
        (.unary op inner.1 (span.join inner.1.span), inner.2) := by
  unfold operand
  simp only [if_pos hop]
  cases nested Operator.signStrength ts <;> rfl

theorem operand_group (span : Span) (ts : List Token) :
    plain (operand nested (⟨.openParen, span⟩ :: ts)) =
      (plain (nested 0 ts)).bind fun inner =>
        (plain (closing inner.2 (length_le_self inner.2))).map fun close => (inner.1, close.2) := by
  unfold operand
  simp only
  cases nested 0 ts with
  | error e => rfl
  | ok inner =>
    obtain ⟨e, rest, hle⟩ := inner
    simp only [plain_ok, Except.bind]
    unfold closing
    cases rest with
    | nil => rfl
    | cons t rest =>
      obtain ⟨kind, span⟩ := t
      cases kind <;> rfl

/-! ### Chains -/

/-- The loop over infix operators does not depend on the bound. -/
theorem chain_bound (floor : Nat) (left : Expr) (ts : List Token) (h : ts.length ≤ bound)
    (h' : ts.length ≤ bound') :
    plain (chain nested floor left ts h) = plain (chain nested floor left ts h') := by
  by_cases hbinds : Binds floor ts
  · obtain ⟨op, span, rest, l, r, rfl, hop, hle⟩ := hbinds
    cases hright : plain (nested r rest) with
    | error e =>
      rw [chain.eq_def, chain.eq_def nested floor left _ h']
      simp only [hop, if_neg (Nat.not_lt.mpr hle), eq_error_of_plain hright]
      rfl
    | ok right =>
      obtain ⟨right, out⟩ := right
      obtain ⟨hout, -⟩ := exists_of_plain_eq_ok hright
      have : out.length < (⟨.operator op, span⟩ :: rest : List Token).length :=
        Nat.lt_succ_of_le hout
      obtain ⟨_, hstep⟩ := chain_step left hop hle hright h
      obtain ⟨_, hstep'⟩ := chain_step left hop hle hright h'
      rw [hstep, hstep']
      exact chain_bound floor _ out _ _
  · rw [chain_stop h hbinds, chain_stop h' hbinds]
    rfl
termination_by ts.length

theorem chain_eq {floor l r : Nat} (left : Expr) {op : Operator}
    (hop : op.strength? = some (l, r)) (hle : floor ≤ l) {span : Span} {ts : List Token}
    (h : (⟨.operator op, span⟩ :: ts : List Token).length ≤ bound) :
    plain (chain nested floor left (⟨.operator op, span⟩ :: ts) h) =
      (plain (nested r ts)).bind fun right =>
        plain (chain nested floor (.binary left op right.1 (left.span.join right.1.span)) right.2
          (length_le_self right.2)) := by
  cases hright : plain (nested r ts) with
  | error e =>
    rw [chain.eq_def]
    simp only [hop, if_neg (Nat.not_lt.mpr hle), eq_error_of_plain hright]
    rfl
  | ok right =>
    obtain ⟨_, hstep⟩ := chain_step left hop hle hright h
    rw [hstep]
    exact chain_bound floor _ right.2 _ _

theorem expression_eq (level floor : Nat) (ts : List Token) :
    plain (expression (level + 1) floor ts) =
      (plain (operand (expression level) ts)).bind fun left =>
        plain (chain (expression level) floor left.1 left.2 (length_le_self left.2)) := by
  rw [expression]
  cases operand (expression level) ts with
  | error e => rfl
  | ok left => exact chain_bound floor left.value left.rest _ _

end Readers

end LanguageServer.Script
