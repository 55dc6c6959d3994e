import LanguageServer.Proofs.Script.Readers
import LanguageServer.Proofs.Script.Sound

/-! # What stands before an error can be completed

Where the parser complains about a token, the tokens before it begin a text of the grammar: some
*fillers* more, and they are one. An operand that is missing becomes a number, a name after a point
that is missing becomes a call without arguments, and what is open is closed. Only where an
expression nests too deeply there may be no such text.

* `Completes`: the tokens before the error begin a phrase of a stratum;
* `operand_completes`, `chain_completes`: the two halves of an expression;
* `expression_completes`: by induction on the level, one lemma for each reader;
* `statements_completes`: the statements of a whole text. -/

namespace LanguageServer.Script

/-- The kinds of tokens that complete what stands before an error. -/
def fillers : List Token.Kind := [.number "1", .identifier "f", .openParen, .closeParen]

/-- **The tokens before the error begin a phrase of the stratum,** which nests at most `level` deep,
and fillers complete it. -/
def Completes (s : Stratum) (level : Nat) (ts : List Token) (e : ParseError) : Prop :=
  ∃ (front tail : List Token) (more : List Token.Kind) (p : Phrase), ts = front ++ tail ∧
    e.offset = nextOffset tail ∧ more ⊆ fillers ∧ p.kinds = front.map Token.kind ++ more ∧
    p.nesting ≤ level ∧ Derives s p

/-- What stands before an error of the reader can be completed to a phrase of the stratum that
belongs to its floor. -/
def Completing (nested : ExprReader) (level : Nat) : Prop :=
  ∀ ⦃floor : Nat⦄ ⦃ts : List Token⦄ ⦃e : ParseError⦄, plain (nested floor ts) = .error e →
    e.fault ≠ .nestedTooDeeply → Completes (.above floor) level ts e

theorem Completes.loosen {s s' : Stratum} {level : Nat} {ts : List Token} {e : ParseError}
    (h : Completes s level ts e) (hs : s'.rank ≤ s.rank) : Completes s' level ts e := by
  obtain ⟨front, tail, more, p, hts, he, hmore, hk, hn, d⟩ := h
  exact ⟨front, tail, more, p, hts, he, hmore, hk, hn, d.loosen hs⟩

theorem completes_number {s : Stratum} {level : Nat} {ts : List Token} {e : ParseError}
    (he : e.offset = nextOffset ts) : Completes s (level + 1) ts e := by
  refine ⟨[], ts, [.number "1"], .atom (.number "1") (.number "1"), rfl, he, by simp [fillers], rfl,
    Nat.le_add_left _ _, (Derives.number "1").loosen ?_⟩
  cases s <;> decide

/-- The tokens before the error begin phrases with commas between them, and fillers complete
them. -/
def CompletesAll (level : Nat) (ts : List Token) (e : ParseError) : Prop :=
  ∃ (front tail : List Token) (more : List Token.Kind) (p : Phrase) (ps : List Phrase),
    ts = front ++ tail ∧ e.offset = nextOffset tail ∧ more ⊆ fillers ∧
    Phrase.separated (p :: ps) = front.map Token.kind ++ more ∧
    ∀ q ∈ p :: ps, q.nesting ≤ level ∧ Derives .disjunction q

/-! ### One reader after the other -/

section Bind
variable {ε α β : Type}

theorem bind_eq_error {r : Except ε α} {next : α → Except ε β} {e : ε}
    (h : r.bind next = .error e) : r = .error e ∨ ∃ a, r = .ok a ∧ next a = .error e := by
  cases r with
  | error e' => cases h; exact Or.inl rfl
  | ok a => exact Or.inr ⟨a, rfl, h⟩

theorem map_eq_error {r : Except ε α} {f : α → β} {e : ε} (h : r.map f = .error e) :
    r = .error e := by
  cases r with
  | error e' => cases h; rfl
  | ok a => cases h

end Bind

section Operand
variable {nested : ExprReader} {level bound : Nat}

theorem closing_error {ts : List Token} {h : ts.length ≤ bound} {e : ParseError}
    (hc : plain (closing ts h) = .error e) : e.offset = nextOffset ts := by
  unfold closing at hc
  split at hc
  · cases hc
  · cases hc; rfl

theorem argumentList_completes (hs : Sound nested level) (hn : Completing nested level)
    {bound : Nat} {read : List Expr} {ts : List Token} {h : ts.length ≤ bound} {e : ParseError}
    (ha : plain (argumentList nested read ts h) = .error e) (he : e.fault ≠ .nestedTooDeeply) :
    CompletesAll level ts e := by
  rw [argumentList_eq] at ha
  rcases bind_eq_error ha with harg | ⟨⟨arg, rest⟩, harg, hafter⟩
  · obtain ⟨front, tail, more, p, hts, hoffset, hmore, hk, hnest, d⟩ := hn harg he
    refine ⟨front, tail, more, p, [], hts, hoffset, hmore, ?_, ?_⟩
    · rwa [Phrase.separated_singleton]
    · simpa using ⟨hnest, d⟩
  · obtain ⟨⟨front, p, rfl, hk, -, hnest, d⟩, -⟩ := hs harg
    by_cases hcomma : ahead rest = some .comma
    · obtain ⟨comma, rest, rfl⟩ := exists_of_ahead rfl hcomma
      have : rest.length < (front ++ ⟨.comma, comma⟩ :: rest : List Token).length := by
        rw [List.length_append, List.length_cons]
        omega
      have hlist : plain (argumentList nested (arg :: read) rest (length_le_self rest)) = .error e :=
        hafter
      obtain ⟨front', tail, more, q, qs, rfl, hoffset, hmore, hsep, hall⟩ :=
        argumentList_completes hs hn hlist he
      refine ⟨front ++ ⟨.comma, comma⟩ :: front', tail, more, p, q :: qs, by simp, hoffset, hmore,
        ?_, List.forall_mem_cons.mpr ⟨⟨hnest, d⟩, hall⟩⟩
      rw [Phrase.separated_cons, hsep, List.map_append, hk]
      simp
    · rw [afterArgument_stop _ hcomma] at hafter
      cases hafter
termination_by ts.length

/-- A call whose arguments are not read to their end, after the tokens that name the function. -/
theorem call_completes (hs : Sound nested level) (hn : Completing nested level) {callee : Callee}
    {start : Span} {ts : List Token} {h : ts.length ≤ bound} {e : ParseError}
    (hc : plain (call nested callee start ts h) = .error e) (he : e.fault ≠ .nestedTooDeeply)
    (name : List Token) {span : Span} (hname : ∀ ps : List Phrase,
      (∀ p ∈ ps, Derives .disjunction p) →
        Derives .primary (.call (name.map Token.kind) callee ps)) :
    Completes .primary (level + 1) (name ++ ⟨.openParen, span⟩ :: ts) e := by
  have hclose : ahead ts ≠ some .closeParen := fun hclose => by
    obtain ⟨close, rest, rfl⟩ := exists_of_ahead rfl hclose
    cases hc
  have hcall {front tail : List Token} {more : List Token.Kind} {ps : List Phrase}
      (hts : ts = front ++ tail) (hoffset : e.offset = nextOffset tail) (hmore : more ⊆ fillers)
      (hk : Phrase.separated ps = front.map Token.kind ++ more)
      (hps : ∀ p ∈ ps, p.nesting ≤ level ∧ Derives .disjunction p) :
      Completes .primary (level + 1) (name ++ ⟨.openParen, span⟩ :: ts) e := by
    have hdeep : Phrase.deepest ps ≤ level := deepest_le fun p hp => (hps p hp).1
    refine ⟨name ++ ⟨.openParen, span⟩ :: front, tail, more ++ [.closeParen],
      .call (name.map Token.kind) callee ps, by simp [hts], hoffset, ?_, by simp [Phrase.call, hk],
      ?_, hname ps fun p hp => (hps p hp).2⟩
    · simpa [fillers] using hmore
    · simp only [Phrase.call]
      omega
  rw [call_eq h hclose] at hc
  rcases bind_eq_error hc with hargs | ⟨⟨args, rest⟩, hargs, hclosing⟩
  · obtain ⟨front, tail, more, p, ps, hts, hoffset, hmore, hk, hps⟩ :=
      argumentList_completes hs hn hargs he
    exact hcall hts hoffset hmore hk hps
  · obtain ⟨e', new, -, front, ps, hts, hk, -, hps⟩ := argumentList_sound hs hargs
    exact hcall hts (closing_error (map_eq_error hclosing)) (List.nil_subset _) (by simp [hk]) hps

theorem named_completes (hs : Sound nested level) (hn : Completing nested level) {name : String}
    {span : Span} {ts : List Token} {e : ParseError}
    (ho : plain (operand nested (⟨.identifier name, span⟩ :: ts)) = .error e)
    (he : e.fault ≠ .nestedTooDeeply) :
    Completes .primary (level + 1) (⟨.identifier name, span⟩ :: ts) e := by
  have hmember (member : String) :
      Derives .primary (.call [.identifier name, .dot, .identifier member] ⟨name, member⟩ []) :=
    .member name member (by simp)
  change plain (named nested name span ts (Nat.le_succ _)) = _ at ho
  by_cases hparen : ahead ts = some .openParen
  · obtain ⟨paren, inside, rfl⟩ := exists_of_ahead rfl hparen
    exact call_completes hs hn ho he [⟨.identifier name, span⟩] fun ps hps => .call name hps
  by_cases hdot : ahead ts = some .dot
  · obtain ⟨dot, after, rfl⟩ := exists_of_ahead rfl hdot
    by_cases hahead : ∃ member, ahead after = some (.identifier member)
    · obtain ⟨member, hahead⟩ := hahead
      obtain ⟨place, after, rfl⟩ := exists_of_ahead rfl hahead
      by_cases hopen : ahead after = some .openParen
      · obtain ⟨paren, inside, rfl⟩ := exists_of_ahead rfl hopen
        exact call_completes hs hn ho he
          [⟨.identifier name, span⟩, ⟨.dot, dot⟩, ⟨.identifier member, place⟩]
          fun ps hps => .member name member hps
      · rw [named_no_paren _ hopen] at ho
        cases ho
        exact ⟨[⟨.identifier name, span⟩, ⟨.dot, dot⟩, ⟨.identifier member, place⟩], after,
          [.openParen, .closeParen], _, rfl, rfl, by simp [fillers], rfl, by
            simp [Phrase.call, Phrase.deepest], hmember member⟩
    · rw [named_no_function _ fun member h => hahead ⟨member, h⟩] at ho
      cases ho
      exact ⟨[⟨.identifier name, span⟩, ⟨.dot, dot⟩], after,
        [.identifier "f", .openParen, .closeParen], _, rfl, rfl, by simp [fillers], rfl, by
          simp [Phrase.call, Phrase.deepest], hmember "f"⟩
  · rw [named_name _ hparen hdot] at ho
    cases ho

/-- **What stands before an error in an operand begins a phrase of the stratum of signs.** -/
theorem operand_completes (hs : Sound nested level) (hn : Completing nested level)
    {ts : List Token} {e : ParseError} (ho : plain (operand nested ts) = .error e)
    (he : e.fault ≠ .nestedTooDeeply) : Completes .sign (level + 1) ts e := by
  have hle : Stratum.sign.rank ≤ Stratum.primary.rank := by decide
  cases ts with
  | nil => cases ho; exact completes_number rfl
  | cons t ts =>
    obtain ⟨kind, span⟩ := t
    cases kind with
    | identifier name => exact (named_completes hs hn ho he).loosen hle
    | number | text | boolean | null => cases ho
    | operator op =>
      by_cases hop : op.isSign = true
      · rw [operand_sign hop] at ho
        obtain ⟨front, tail, more, p, rfl, hoffset, hmore, hk, hnest, d⟩ :=
          hn (map_eq_error ho) he
        have hmem : op ∈ [Operator.minus, .not] := by revert hop; cases op <;> decide
        refine ⟨⟨.operator op, span⟩ :: front, tail, more, .sign op p, rfl, hoffset, hmore, ?_, ?_,
          .sign hmem d⟩
        · simp [Phrase.sign, hk]
        · simp only [Phrase.sign]
          omega
      · have hbegins : (Token.Kind.operator op).begins = false := Bool.eq_false_iff.mpr hop
        rw [operand_fault rfl hbegins rfl] at ho
        cases ho
        exact completes_number rfl
    | openParen =>
      have hgroup {front tail : List Token} {more : List Token.Kind} {p : Phrase}
          (hts : ts = front ++ tail) (hoffset : e.offset = nextOffset tail) (hmore : more ⊆ fillers)
          (hk : p.kinds = front.map Token.kind ++ more) (hnest : p.nesting ≤ level)
          (d : Derives .disjunction p) : Completes .sign (level + 1) (⟨.openParen, span⟩ :: ts) e :=
        ⟨⟨.openParen, span⟩ :: front, tail, more ++ [.closeParen], p.group, congrArg _ hts, hoffset,
          by simpa [fillers] using hmore, by simp [Phrase.group, hk],
          by simp only [Phrase.group]; omega, (Derives.group d).loosen hle⟩
      rw [operand_group] at ho
      rcases bind_eq_error ho with hinner | ⟨⟨inner, rest⟩, hinner, hclosing⟩
      · obtain ⟨front, tail, more, p, hts, hoffset, hmore, hk, hnest, d⟩ := hn hinner he
        exact hgroup hts hoffset hmore hk hnest d
      · obtain ⟨⟨front, p, hts, hk, -, hnest, d⟩, -⟩ := hs hinner
        exact hgroup hts (closing_error (map_eq_error hclosing)) (List.nil_subset _)
          (by simp [hk]) hnest d
    | closeParen | comma | dot | newline | finish => cases ho; exact completes_number rfl

theorem completes_binary {s sl sr : Stratum} {op : Operator} {left : Expr} {span : Span}
    {ts after : List Token} {e : ParseError}
    (hl : Spells sl (level + 1) ts left (⟨.operator op, span⟩ :: after))
    (hr : Completes sr level after e)
    (hd : ∀ p q, Derives sl p → Derives sr q → Derives s (p.binary op q)) :
    Completes s (level + 1) ts e := by
  obtain ⟨front, p, rfl, hk, -, hnest, d⟩ := hl
  obtain ⟨front', tail, more, q, rfl, hoffset, hmore, hk', hnest', d'⟩ := hr
  refine ⟨front ++ ⟨.operator op, span⟩ :: front', tail, more, p.binary op q, by simp, hoffset,
    hmore, by simp [Phrase.binary, hk, hk'], ?_, hd p q d d'⟩
  simp only [Phrase.binary]
  omega

/-- **The loop over infix operators.** The stratum `s` derives the left operand, no operator to come
binds tighter than it, and it is not looser than the floor. -/
theorem chain_completes (hs : Sound nested level) (hn : Completing nested level) {bound : Nat}
    {s : Stratum} {floor : Nat} {left : Expr} {all ts : List Token} {h : ts.length ≤ bound}
    {e : ParseError} (hl : Spells s (level + 1) all left ts) (hb : ¬ Binds s.upper ts)
    (hc : plain (chain nested floor left ts h) = .error e) (he : e.fault ≠ .nestedTooDeeply) :
    Completes (.above floor) (level + 1) all e := by
  by_cases hbinds : Binds floor ts
  · obtain ⟨op, span, after, l, r, rfl, hop, hle⟩ := hbinds
    have hlt : l < s.upper := Nat.lt_of_not_le fun hge => hb ⟨op, span, after, l, r, rfl, hop, hge⟩
    obtain ⟨s', sl, rfl, rfl, hrank, hd⟩ := Stratum.exists_binary hop hlt
    have hl' := hl.loosen hrank
    rw [chain_eq left hop hle] at hc
    rcases bind_eq_error hc with hright | ⟨⟨right, rest⟩, hright, hchain⟩
    · exact (completes_binary hl' (hn hright he) hd).loosen (Stratum.rank_above_le hle)
    · obtain ⟨hr, hbr⟩ := hs hright
      have : rest.length < (⟨.operator op, span⟩ :: after : List Token).length := by
        obtain ⟨hrest, -⟩ := exists_of_plain_eq_ok hright
        exact Nat.lt_succ_of_le hrest
      exact chain_completes hs hn (spells_binary hl' hr hd _) hbr hchain he
  · rw [chain_stop h hbinds] at hc
    cases hc
termination_by ts.length

end Operand

/-- **What stands before an error in an expression can be completed.** -/
theorem expression_completes (level : Nat) : Completing (expression level) level := by
  induction level with
  | zero =>
    intro floor ts e h he
    cases h
    exact absurd rfl he
  | succ level ih =>
    intro floor ts e h he
    rw [expression_eq] at h
    rcases bind_eq_error h with hoperand | ⟨⟨left, rest⟩, hoperand, hchain⟩
    · refine (operand_completes (expression_sound level) ih hoperand he).loosen ?_
      unfold Stratum.above
      split_ifs <;> decide
    · exact chain_completes (expression_sound level) ih
        (operand_sound (expression_sound level) hoperand) (not_binds_sign _) hchain he

/-! ### Whole texts -/

/-- **What stands before an error can be completed** to the tokens of a text that nests at most as
deep as it may. -/
theorem statements_completes {read : List Expr} {ts : List Token} {e : ParseError}
    (h : statements read ts = .error e) (he : e.fault ≠ .nestedTooDeeply) :
    ∃ (front tail : List Token) (more : List Token.Kind) (ps : List Phrase), ts = front ++ tail ∧
      e.offset = nextOffset tail ∧ more ⊆ fillers ∧
      Program (front.map Token.kind ++ (more ++ [.finish])) ps ∧
      ∀ p ∈ ps, p.nesting ≤ maxNesting := by
  match ts with
  | [] => rw [statements.eq_def] at h; cases h
  | ⟨kind, span⟩ :: ts =>
    by_cases hfinish : kind = .finish
    · subst hfinish
      rw [statements.eq_def] at h
      cases h
    by_cases hnewline : kind = .newline
    · subst hnewline
      rw [statements.eq_def] at h
      obtain ⟨front, tail, more, ps, rfl, hoffset, hmore, hprog, hnest⟩ :=
        statements_completes h he
      exact ⟨⟨.newline, span⟩ :: front, tail, more, ps, rfl, hoffset, hmore, .newline hprog, hnest⟩
    rw [statements_line hnewline hfinish] at h
    rcases bind_eq_error h with hexpr | ⟨⟨left, rest⟩, hexpr, hafter⟩
    · obtain ⟨front, tail, more, p, hts, hoffset, hmore, hk, hnest, d⟩ :=
        expression_completes maxNesting hexpr he
      refine ⟨front, tail, more, [p], hts, hoffset, hmore, ?_, by simpa using hnest⟩
      rw [← List.append_assoc, ← hk]
      exact .last d
    · obtain ⟨⟨front, p, hts, hk, -, hnest, d⟩, -⟩ := expression_sound maxNesting hexpr
      rw [hts]
      simp only at hafter
      unfold afterStatement at hafter
      split at hafter
      · next place after =>
        have hless : after.length < (⟨kind, span⟩ :: ts : List Token).length := by
          rw [hts, List.length_append, List.length_cons]
          omega
        obtain ⟨front', tail, more, ps, rfl, hoffset, hmore, hprog, hnest'⟩ :=
          statements_completes hafter he
        refine ⟨front ++ ⟨.newline, place⟩ :: front', tail, more, p :: ps, by simp, hoffset, hmore,
          ?_, List.forall_mem_cons.mpr ⟨hnest, hnest'⟩⟩
        rw [List.map_append, hk, List.append_assoc]
        exact .line d hprog
      · cases hafter
      · cases hafter
        refine ⟨front, rest, [], [p], rfl, rfl, List.nil_subset _, ?_, by simpa using hnest⟩
        rw [hk]
        exact .last d
termination_by ts.length
decreasing_by
  · exact Nat.lt_succ_self _
  · exact hless

end LanguageServer.Script
