import LanguageServer.Proofs.Script.Complete

/-! # The parser reads nothing but phrases of the grammar

What the parser takes off the front of the tokens is a phrase of the stratum that belongs to its
floor, and the expression it gives has the shape of that phrase: `Spells`. The loop over infix
operators keeps, for its left operand, a stratum that derives it and that no operator to come binds
tighter than; so the next operator can always take the left operand as its own.

* `operand_sound`, `chain_sound`: the two halves of an expression;
* `expression_sound`: by induction on the level;
* `statements_sound`: the statements of a whole text. -/

namespace LanguageServer.Script

/-- `ts` is a phrase of the stratum, which `e` has the shape of, and then `rest`. -/
def Spells (s : Stratum) (level : Nat) (ts : List Token) (e : Expr) (rest : List Token) : Prop :=
  ∃ (front : List Token) (p : Phrase), ts = front ++ rest ∧ front.map Token.kind = p.kinds ∧
    e.shape = p.shape ∧ p.nesting ≤ level ∧ Derives s p

/-- The reader takes phrases of the stratum that belongs to its floor, and all that belongs to
them. -/
def Sound (nested : ExprReader) (level : Nat) : Prop :=
  ∀ ⦃floor : Nat⦄ ⦃ts : List Token⦄ ⦃e : Expr⦄ ⦃rest : List Token⦄,
    plain (nested floor ts) = .ok (e, rest) →
      Spells (.above floor) level ts e rest ∧ ¬ Binds floor rest

theorem Spells.loosen {s s' : Stratum} {level : Nat} {ts rest : List Token} {e : Expr}
    (h : Spells s level ts e rest) (hs : s'.rank ≤ s.rank) : Spells s' level ts e rest := by
  obtain ⟨front, p, hts, hk, hshape, hn, d⟩ := h
  exact ⟨front, p, hts, hk, hshape, hn, d.loosen hs⟩

/-- `ts` is phrases with commas between them, which `es` have the shapes of, and then `rest`. -/
def SpellsAll (level : Nat) (ts : List Token) (es : List Expr) (rest : List Token) : Prop :=
  ∃ (front : List Token) (ps : List Phrase), ts = front ++ rest ∧
    front.map Token.kind = Phrase.separated ps ∧ es.map Expr.shape = ps.map Phrase.shape ∧
    ∀ p ∈ ps, p.nesting ≤ level ∧ Derives .disjunction p

section Operand
variable {nested : ExprReader} {level bound : Nat}

theorem closing_sound {ts rest : List Token} {h : ts.length ≤ bound} {span : Span}
    (hc : plain (closing ts h) = .ok (span, rest)) : ts = ⟨.closeParen, span⟩ :: rest := by
  unfold closing at hc
  split at hc
  · cases hc; rfl
  · cases hc

theorem argumentList_sound (hs : Sound nested level) {read es : List Expr} {ts rest : List Token}
    {h : ts.length ≤ bound} (ha : plain (argumentList nested read ts h) = .ok (es, rest)) :
    ∃ e new, es = read.reverse ++ e :: new ∧ SpellsAll level ts (e :: new) rest := by
  rw [argumentList.eq_def] at ha
  cases harg : nested 0 ts with
  | error e => rw [harg] at ha; cases ha
  | ok arg =>
    obtain ⟨e, out, hle⟩ := arg
    obtain ⟨⟨front, p, hts, hk, hshape, hn, d⟩, -⟩ := hs (congrArg plain harg)
    rw [harg] at ha
    simp only at ha hts
    split at ha
    · next comma after shorter =>
      have : after.length < ts.length := shorter
      obtain ⟨e', new, rfl, front', ps, hts', hk', hshapes, hps⟩ := argumentList_sound hs ha
      subst hts'
      refine ⟨e, e' :: new, by simp, front ++ ⟨.comma, comma⟩ :: front', p :: ps, by simp [hts], ?_,
        by simp [hshape, hshapes], fun q hq => ?_⟩
      · cases ps with
        | nil => cases hshapes
        | cons q qs => simp [Phrase.separated_cons, hk, hk']
      · rcases List.mem_cons.mp hq with rfl | hq
        · exact ⟨hn, d⟩
        · exact hps q hq
    · cases ha
      refine ⟨e, [], by simp, front, [p], hts, by rw [hk, Phrase.separated_singleton],
        by simp [hshape], fun q hq => ?_⟩
      obtain rfl := List.mem_singleton.mp hq
      exact ⟨hn, d⟩
termination_by ts.length

theorem call_sound (hs : Sound nested level) {callee : Callee} {start : Span} {e : Expr}
    {ts rest : List Token} {h : ts.length ≤ bound}
    (hc : plain (call nested callee start ts h) = .ok (e, rest)) :
    ∃ (front : List Token) (ps : List Phrase), ts = front ++ rest ∧
      front.map Token.kind = Phrase.separated ps ++ [.closeParen] ∧
      e.shape = .call callee (ps.map Phrase.shape) ∧
      ∀ p ∈ ps, p.nesting ≤ level ∧ Derives .disjunction p := by
  unfold call at hc
  split at hc
  · next span after _ =>
    cases hc
    exact ⟨[⟨.closeParen, span⟩], [], rfl, rfl, by simp [Expr.shape, Expr.shapes], by simp⟩
  · split at hc
    · cases hc
    · next args hargs =>
      obtain ⟨e', new, hes, front, ps, rfl, hk, hshapes, hps⟩ :=
        argumentList_sound hs (congrArg plain hargs)
      split at hc
      · cases hc
      · next close hclose =>
        have hrest := closing_sound (congrArg plain hclose)
        cases hc
        refine ⟨front ++ [⟨.closeParen, close.value⟩], ps, ?_, by simp [hk], ?_, hps⟩
        · rw [hrest, List.append_assoc]; rfl
        · simp only [Taken.map, Expr.shape, Expr.shapes_eq_map, hes, ← hshapes]; rfl

theorem deepest_le {ps : List Phrase} (h : ∀ p ∈ ps, p.nesting ≤ level) :
    Phrase.deepest ps ≤ level := by
  induction ps with
  | nil => exact Nat.zero_le _
  | cons p ps ih =>
    exact Nat.max_le.mpr ⟨h p (by simp), ih fun q hq => h q (by simp [hq])⟩

theorem spells_call (hs : Sound nested level) {callee : Callee} {start : Span} {e : Expr}
    {ts rest : List Token} {h : ts.length ≤ bound}
    (hc : plain (call nested callee start ts h) = .ok (e, rest)) (name : List Token) {span : Span}
    (hname : ∀ ps : List Phrase, (∀ p ∈ ps, Derives .disjunction p) →
      Derives .primary (.call (name.map Token.kind) callee ps)) :
    Spells .primary (level + 1) (name ++ ⟨.openParen, span⟩ :: ts) e rest := by
  obtain ⟨front, ps, rfl, hk, hshape, hps⟩ := call_sound hs hc
  have hdeep : Phrase.deepest ps ≤ level := deepest_le fun p hp => (hps p hp).1
  refine ⟨name ++ ⟨.openParen, span⟩ :: front, .call (name.map Token.kind) callee ps, by simp,
    by simp [Phrase.call, hk], hshape, ?_, hname ps fun p hp => (hps p hp).2⟩
  simp only [Phrase.call]
  omega

theorem named_sound (hs : Sound nested level) {name : String} {span : Span} {e : Expr}
    {ts rest : List Token} {h : ts.length ≤ bound}
    (hn : plain (named nested name span ts h) = .ok (e, rest)) :
    Spells .primary (level + 1) (⟨.identifier name, span⟩ :: ts) e rest := by
  unfold named at hn
  split at hn
  · exact spells_call hs hn [⟨.identifier name, span⟩] fun ps hps => .call name hps
  · next dot member memberSpan start inside _ =>
    exact spells_call hs hn
      [⟨.identifier name, span⟩, ⟨.dot, dot⟩, ⟨.identifier member, memberSpan⟩]
      fun ps hps => .member name member hps
  · cases hn
  · cases hn
  · cases hn
    exact ⟨[⟨.identifier name, span⟩], _, rfl, rfl, rfl, Nat.le_add_left _ _, .identifier name⟩

theorem spells_atom {kind : Token.Kind} {shape : Shape} {e : Expr} (hshape : e.shape = shape)
    (d : Derives .primary (.atom kind shape)) (span : Span) (rest : List Token) :
    Spells .primary (level + 1) (⟨kind, span⟩ :: rest) e rest :=
  ⟨[⟨kind, span⟩], _, rfl, rfl, hshape, Nat.le_add_left _ _, d⟩

theorem operand_sound (hs : Sound nested level) {ts rest : List Token} {e : Expr}
    (ho : plain (operand nested ts) = .ok (e, rest)) : Spells .sign (level + 1) ts e rest := by
  have hle : Stratum.sign.rank ≤ Stratum.primary.rank := by decide
  match ts with
  | [] => cases ho
  | ⟨kind, span⟩ :: ts =>
    unfold operand at ho
    cases kind with
    | identifier name => exact (named_sound hs ho).loosen hle
    | number digits => cases ho; exact (spells_atom rfl (.number digits) span ts).loosen hle
    | text contents => cases ho; exact (spells_atom rfl (.text contents) span ts).loosen hle
    | boolean value => cases ho; exact (spells_atom rfl (.boolean value) span ts).loosen hle
    | null => cases ho; exact (spells_atom rfl .null span ts).loosen hle
    | operator op =>
      simp only at ho
      split at ho
      · next hsign =>
        split at ho
        · cases ho
        · next inner hinner =>
          obtain ⟨⟨front, p, hts, hk, hshape, hn, d⟩, -⟩ := hs (congrArg plain hinner)
          have hop : op ∈ [Operator.minus, .not] := by revert hsign; cases op <;> decide
          cases ho
          refine ⟨⟨.operator op, span⟩ :: front, .sign op p, congrArg _ hts,
            by simp [hk, Phrase.sign], ?_, ?_, .sign hop d⟩
          · simp only [Taken.widen, Taken.map, Expr.shape, hshape, Phrase.sign]
          · simp only [Phrase.sign]; omega
      · cases ho
    | openParen =>
      simp only at ho
      split at ho
      · cases ho
      · next inner hinner =>
        obtain ⟨⟨front, p, hts, hk, hshape, hn, d⟩, -⟩ := hs (congrArg plain hinner)
        split at ho
        · cases ho
        · next close hclose =>
          have hrest := closing_sound (congrArg plain hclose)
          cases ho
          refine ⟨⟨.openParen, span⟩ :: (front ++ [⟨.closeParen, close.value⟩]), p.group, ?_,
            by simp [hk, Phrase.group], hshape, ?_, (Derives.group d).loosen hle⟩
          · exact congrArg (List.cons _) (hts.trans (by rw [hrest]; simp [Taken.map]))
          · simp only [Phrase.group]; omega
    | closeParen | comma | dot | newline | finish => cases ho

theorem spells_binary {s sl sr : Stratum} {op : Operator} {left right : Expr} {opSpan : Span}
    {ts after rest : List Token}
    (hl : Spells sl (level + 1) ts left (⟨.operator op, opSpan⟩ :: after))
    (hr : Spells sr level after right rest)
    (hd : ∀ p q, Derives sl p → Derives sr q → Derives s (p.binary op q)) (span : Span) :
    Spells s (level + 1) ts (.binary left op right span) rest := by
  obtain ⟨front, p, rfl, hk, hshape, hn, d⟩ := hl
  obtain ⟨front', q, rfl, hk', hshape', hn', d'⟩ := hr
  refine ⟨front ++ ⟨.operator op, opSpan⟩ :: front', p.binary op q, by simp,
    by simp [hk, hk', Phrase.binary], ?_, ?_, hd p q d d'⟩
  · rw [Expr.shape, hshape, hshape', Phrase.binary]
  · simp only [Phrase.binary]; omega

/-- **Which stratum an operator makes of its operands,** where no operator that binds tighter than
the stratum of the left one comes. -/
theorem Stratum.exists_binary {s : Stratum} {op : Operator} {l r : Nat}
    (hop : op.strength? = some (l, r)) (hlt : l < s.upper) :
    ∃ s' sl : Stratum, l = s'.lower ∧ r = s'.upper ∧ sl.rank ≤ s.rank ∧
      ∀ p q, Derives sl p → Derives (.above r) q → Derives s' (p.binary op q) := by
  rcases strength?_cases hop with ⟨s', hmem, rfl, rfl⟩ | ⟨rfl, rfl, rfl⟩
  · refine ⟨s', s', rfl, rfl, rank_le_of_lower_lt hlt, fun p q dp dq => ?_⟩
    rw [above_upper hmem] at dq
    exact .binary hmem dp dq
  · exact ⟨power, sign, rfl, rfl, rank_sign_le hlt, fun _ _ => .power⟩

/-- **The loop over infix operators.** The stratum `s` derives the left operand, no operator to come
binds tighter than it, and it is not looser than the floor. -/
theorem chain_sound (hs : Sound nested level) {s : Stratum} {floor : Nat} {left e : Expr}
    {all ts rest : List Token} {h : ts.length ≤ bound} (hl : Spells s (level + 1) all left ts)
    (hb : ¬ Binds s.upper ts) (hf : (Stratum.above floor).rank ≤ s.rank)
    (hc : plain (chain nested floor left ts h) = .ok (e, rest)) :
    Spells (.above floor) (level + 1) all e rest ∧ ¬ Binds floor rest := by
  by_cases hbinds : Binds floor ts
  · obtain ⟨op, span, after, l, r, rfl, hop, hle⟩ := hbinds
    have hlt : l < s.upper := Nat.lt_of_not_le fun hge => hb ⟨op, span, after, l, r, rfl, hop, hge⟩
    rw [chain.eq_def] at hc
    simp only [hop, if_neg (Nat.not_lt.mpr hle)] at hc
    split at hc
    · cases hc
    · next right hright =>
      obtain ⟨hr, hbr⟩ := hs (congrArg plain hright)
      have : right.rest.length < (⟨.operator op, span⟩ :: after).length :=
        Nat.lt_succ_of_le right.le_bound
      -- the stratum of the operator takes the left operand, and derives what the loop goes on with
      obtain ⟨s', sl, rfl, rfl, hrank, hd⟩ := Stratum.exists_binary hop hlt
      have hnew := spells_binary (hl.loosen hrank) hr hd
      exact chain_sound hs (hnew _) hbr (Stratum.rank_above_le hle) hc
  · rw [chain_stop h hbinds] at hc
    cases hc
    exact ⟨hl.loosen hf, hbinds⟩
termination_by ts.length

end Operand

/-- **What the parser takes for an expression is one.** -/
theorem expression_sound (level : Nat) : Sound (expression level) level := by
  induction level with
  | zero => intro floor ts e rest h; cases h
  | succ level ih =>
    intro floor ts e rest h
    rw [expression] at h
    split at h
    · cases h
    · next left hleft =>
      have hl := operand_sound ih (congrArg plain hleft)
      refine chain_sound ih hl (not_binds_sign _) ?_ h
      unfold Stratum.above
      split_ifs <;> decide

/-! ### Whole texts -/

/-- The tokens end with the only one that ends the text. -/
def Finished (ts : List Token) : Prop :=
  ∃ front span, ts = front ++ [⟨.finish, span⟩] ∧ ∀ t ∈ front, t.kind ≠ .finish

theorem Finished.not_unfinished {ts : List Token} (h : Finished ts) :
    ¬ ∀ t ∈ ts, t.kind ≠ .finish := by
  obtain ⟨all, span, rfl, -⟩ := h
  exact fun hall => hall ⟨.finish, span⟩ (by simp) rfl

theorem Finished.of_append {front ts : List Token} (h : Finished (front ++ ts)) (hne : ts ≠ []) :
    Finished ts := by
  obtain ⟨all, span, heq, hall⟩ := h
  rw [← List.dropLast_concat_getLast hne, ← List.append_assoc] at heq
  obtain ⟨rfl, hlast⟩ := List.append_inj' heq rfl
  refine ⟨ts.dropLast, span, ?_, fun t ht => hall t (by simp [ht])⟩
  rw [← hlast, List.dropLast_concat_getLast hne]

theorem Finished.unfinished {front ts : List Token} (h : Finished (front ++ ts)) (hne : ts ≠ []) :
    ∀ t ∈ front, t.kind ≠ .finish := by
  obtain ⟨back, last, rfl, -⟩ := h.of_append hne
  obtain ⟨all, span, heq, hall⟩ := h
  rw [← List.append_assoc] at heq
  obtain ⟨rfl, -⟩ := List.append_inj' heq rfl
  exact fun t ht => hall t (List.mem_append_left _ ht)

theorem Finished.tail {t : Token} {ts : List Token} (h : Finished (t :: ts))
    (ht : t.kind ≠ .finish) : Finished ts := by
  obtain ⟨all, span, heq, hall⟩ := h
  cases all with
  | nil => cases heq; exact absurd rfl ht
  | cons t' all => cases heq; exact ⟨all, span, rfl, fun t h => hall t (List.mem_cons_of_mem _ h)⟩

theorem Finished.eq_nil {span : Span} {ts : List Token} (h : Finished (⟨.finish, span⟩ :: ts)) :
    ts = [] := by
  obtain ⟨all, span', heq, hall⟩ := h
  cases all with
  | nil => cases heq; rfl
  | cons t all => cases heq; exact absurd rfl (hall _ List.mem_cons_self)

/-- **The statements that the parser reads are those of the grammar.** -/
theorem statements_sound {read es : List Expr} {ts : List Token} (hfin : Finished ts)
    (h : statements read ts = .ok es) :
    ∃ (new : List Expr) (ps : List Phrase), es = read.reverse ++ new ∧
      Program (ts.map Token.kind) ps ∧ new.map Expr.shape = ps.map Phrase.shape ∧
      ∀ p ∈ ps, p.nesting ≤ maxNesting := by
  match ts with
  | [] => obtain ⟨all, span, heq, -⟩ := hfin; simp at heq
  | t :: ts =>
    by_cases h1 : t.kind = .finish
    · obtain ⟨_, span⟩ := t
      cases h1
      obtain rfl := hfin.eq_nil
      rw [statements.eq_def] at h
      cases h
      exact ⟨[], [], by simp, .finish, rfl, by simp⟩
    by_cases h2 : t.kind = .newline
    · obtain ⟨_, span⟩ := t
      cases h2
      rw [statements.eq_def] at h
      obtain ⟨new, ps, hes, hprog, hshapes, hn⟩ := statements_sound (hfin.tail h1) h
      exact ⟨new, ps, hes, .newline hprog, hshapes, hn⟩
    rw [statements_line h2 h1] at h
    cases he : plain (expression maxNesting 0 (t :: ts)) with
    | error e => rw [he] at h; cases h
    | ok statement =>
      obtain ⟨e, rest⟩ := statement
      obtain ⟨⟨front, p, hts, hk, hshape, hn, d⟩, -⟩ := expression_sound maxNesting he
      rw [he] at h
      change afterStatement (e :: read) rest = .ok es at h
      rw [hts] at hfin ⊢
      rw [List.map_append, hk]
      unfold afterStatement at h
      split at h
      · next span after =>
        have hafter : Finished after := (hfin.of_append (by simp)).tail nofun
        have hless : after.length < (t :: ts).length := by
          rw [hts, List.length_append, List.length_cons]
          omega
        obtain ⟨new, ps, rfl, hprog, hshapes, hps⟩ := statements_sound hafter h
        refine ⟨e :: new, p :: ps, by simp, .line d hprog, by simp [hshape, hshapes], ?_⟩
        simpa [hn] using hps
      · next span after =>
        obtain rfl := (hfin.of_append (by simp)).eq_nil
        cases h
        exact ⟨[e], [p], by simp, .last d, by simp [hshape], by simpa using hn⟩
      · cases h
termination_by ts.length
decreasing_by
  · exact Nat.lt_succ_self _
  · exact hless

end LanguageServer.Script
