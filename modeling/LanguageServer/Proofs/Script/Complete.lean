import LanguageServer.Proofs.Script.Strength

/-! # The parser reads every phrase of the grammar

Reading a phrase of a stratum, with a floor that the operators of the stratum reach, brings the
parser to the loop over infix operators with the phrase as its left operand: `Arrives`. What follows
the phrase must not belong to it: no operator that binds tighter than the stratum, and nothing that
makes a call of a name. From there the loop either goes on or, if no operator of at least the floor
comes next, stops.

* `Derives.arriving`: by induction on the derivation, one lemma for each way to build a phrase;
* `Derives.reads`: the parser reads a phrase and stops after it;
* `Program.reads`: the statements of a whole text. -/

namespace LanguageServer.Script

/-! ### The loops -/

section Loops
variable {nested : ExprReader} {bound : Nat}

theorem chain_stop {floor : Nat} {left : Expr} {ts : List Token} (h : ts.length ≤ bound)
    (hb : ¬ Binds floor ts) : chain nested floor left ts h = .ok ⟨left, ts, h⟩ := by
  rw [chain.eq_def]
  split
  · next op opSpan rest _ =>
    split
    · rfl
    · next l r hop =>
      rw [if_pos]
      exact Nat.lt_of_not_le fun hle => hb ⟨op, opSpan, rest, l, r, rfl, hop, hle⟩
  · rfl

theorem chain_step {floor : Nat} (left : Expr) {right : Expr} {op : Operator} {opSpan : Span}
    {l r : Nat} {rest out : List Token} (hop : op.strength? = some (l, r)) (hl : floor ≤ l)
    (hr : plain (nested r rest) = .ok (right, out))
    (h : (⟨.operator op, opSpan⟩ :: rest).length ≤ bound) :
    ∃ h' : out.length ≤ bound, chain nested floor left (⟨.operator op, opSpan⟩ :: rest) h =
      chain nested floor (.binary left op right (left.span.join right.span)) out h' := by
  obtain ⟨hle, heq⟩ := exists_of_plain_eq_ok hr
  refine ⟨Nat.le_trans hle (tail_le h), ?_⟩
  rw [chain.eq_def]
  simp only [hop]
  rw [if_neg (by omega), heq]

/-- `nested` reads the phrase wherever what follows does not belong to it. -/
def Reads (nested : ExprReader) (floor : Nat) (p : Phrase) : Prop :=
  ∀ ⦃front rest : List Token⦄, front.map Token.kind = p.kinds → ¬ Binds floor rest →
    ¬ Applies rest → ∃ e : Expr, e.shape = p.shape ∧
      plain (nested floor (front ++ rest)) = .ok (e, rest)

/-- Whether no expression goes on with a token of this kind. -/
def Token.Kind.ends : Token.Kind → Bool
  | closeParen | comma | newline | finish => true
  | _ => false

theorem not_binds_of_ends {t : Token} (h : t.kind.ends = true) (limit : Nat) (ts : List Token) :
    ¬ Binds limit (t :: ts) := by
  rintro ⟨op, span, rest, l, r, hts, -⟩
  cases hts
  cases h

theorem not_applies_of_ends {t : Token} (h : t.kind.ends = true) (ts : List Token) :
    ¬ Applies (t :: ts) := by
  rintro ⟨span, rest, hts | hts⟩ <;> cases hts <;> cases h

theorem Reads.before {floor : Nat} {p : Phrase} (hr : Reads nested floor p) {front : List Token}
    (hk : front.map Token.kind = p.kinds) {t : Token} (ht : t.kind.ends = true) (ts : List Token) :
    ∃ (e : Expr) (h : (t :: ts).length ≤ (front ++ t :: ts).length), e.shape = p.shape ∧
      nested floor (front ++ t :: ts) = .ok ⟨e, t :: ts, h⟩ := by
  obtain ⟨e, hshape, he⟩ := hr hk (not_binds_of_ends ht floor ts) (not_applies_of_ends ht ts)
  obtain ⟨hle, heq⟩ := exists_of_plain_eq_ok he
  exact ⟨e, hle, hshape, heq⟩

theorem argumentList_reads {p : Phrase} {ps : List Phrase} (hr : ∀ q ∈ p :: ps, Reads nested 0 q)
    {front : List Token} (hk : front.map Token.kind = Phrase.separated (p :: ps)) (close : Span)
    (rest : List Token) (read : List Expr)
    (h : (front ++ ⟨.closeParen, close⟩ :: rest).length ≤ bound) :
    ∃ es : List Expr, es.map Expr.shape = (p :: ps).map Phrase.shape ∧
      plain (argumentList nested read (front ++ ⟨.closeParen, close⟩ :: rest) h) =
        .ok (read.reverse ++ es, ⟨.closeParen, close⟩ :: rest) := by
  induction ps generalizing p front read with
  | nil =>
    rw [Phrase.separated_singleton] at hk
    obtain ⟨e, hle, hshape, he⟩ := (hr p (by simp)).before (t := ⟨.closeParen, close⟩) hk
      rfl rest
    refine ⟨[e], by simp [hshape], ?_⟩
    rw [argumentList.eq_def, he]
    simp
  | cons q qs ih =>
    rw [Phrase.separated_cons] at hk
    obtain ⟨f, g, rfl, hf, hg⟩ := List.map_eq_append_iff.mp hk
    obtain ⟨comma, g, rfl, hargs⟩ := exists_of_kinds_cons hg
    obtain ⟨e, hle, hshape, he⟩ := (hr p (by simp)).before (t := ⟨.comma, comma⟩) hf rfl
      (g ++ ⟨.closeParen, close⟩ :: rest)
    simp only [List.append_assoc, List.cons_append] at h ⊢
    obtain ⟨es, hes, hread⟩ := ih (fun r hr' => hr r (List.mem_cons_of_mem _ hr')) hargs
      (e :: read)
      (Nat.le_trans (tail_le hle) h)
    refine ⟨e :: es, by simp [hshape, hes], ?_⟩
    rw [argumentList.eq_def, he]
    simpa using hread

theorem call_reads {ps : List Phrase} (hd : ∀ q ∈ ps, Derives .disjunction q)
    (hr : ∀ q ∈ ps, Reads nested 0 q) {front : List Token}
    (hk : front.map Token.kind = Phrase.separated ps ++ [.closeParen]) (rest : List Token)
    (callee : Callee) (start : Span) (h : (front ++ rest).length ≤ bound) :
    ∃ e : Expr, e.shape = .call callee (ps.map Phrase.shape) ∧
      plain (call nested callee start (front ++ rest) h) = .ok (e, rest) := by
  obtain ⟨args, last, rfl, hargs, hlast⟩ := List.map_eq_append_iff.mp hk
  obtain ⟨close, rfl⟩ := exists_of_kinds_singleton hlast
  simp only [List.append_assoc, List.cons_append, List.nil_append] at h ⊢
  cases ps with
  | nil =>
    obtain rfl : args = [] := List.map_eq_nil_iff.mp hargs
    exact ⟨_, by simp [Expr.shape, Expr.shapes], rfl⟩
  | cons p ps =>
    obtain ⟨es, hes, hread⟩ := argumentList_reads hr hargs close rest [] h
    obtain ⟨hle, heq⟩ := exists_of_plain_eq_ok hread
    refine ⟨.call callee es (start.join close), by rw [Expr.shape, Expr.shapes_eq_map, hes], ?_⟩
    -- the first argument does not begin with the closing parenthesis
    obtain ⟨k, ks, hsep, hbegins⟩ := (hd p (by simp)).head_separated ps
    obtain ⟨span, ts, rfl, -⟩ := exists_of_kinds_cons (hargs.trans hsep)
    unfold call
    split
    · next hclose _ =>
      cases hclose
      cases hbegins
    · simp only [List.reverse_nil, List.nil_append] at heq
      rw [heq]
      rfl

end Loops

/-! ### From a phrase to the loop over infix operators -/

/-- Reading `ts` comes to the loop over infix operators, with an expression of the given shape as
its left operand and `rest` to go. -/
def Arrives (level floor : Nat) (ts : List Token) (shape : Shape) (rest : List Token) : Prop :=
  ∃ (e : Expr) (bound : Nat) (h : rest.length ≤ bound), e.shape = shape ∧
    plain (expression (level + 1) floor ts) = plain (chain (expression level) floor e rest h)

/-- Reading the phrase, with a floor that the stratum reaches, comes to the loop behind it. -/
def Arriving (s : Stratum) (p : Phrase) : Prop :=
  ∀ ⦃level floor : Nat⦄ ⦃front rest : List Token⦄, front.map Token.kind = p.kinds →
    p.nesting ≤ level + 1 → floor ≤ s.lower → ¬ Binds s.upper rest → ¬ Applies rest →
    Arrives level floor (front ++ rest) p.shape rest

theorem arrives_of_operand {level floor : Nat} {ts rest : List Token} {e : Expr} {shape : Shape}
    (hshape : e.shape = shape) (h : plain (operand (expression level) ts) = .ok (e, rest)) :
    Arrives level floor ts shape rest := by
  obtain ⟨hle, heq⟩ := exists_of_plain_eq_ok h
  refine ⟨e, _, hle, hshape, ?_⟩
  rw [expression, heq]

/-- Where no operator goes on with it, a phrase that arrives is read. -/
theorem Arriving.reads {s : Stratum} {p : Phrase} (ha : Arriving s p) (hpos : 1 ≤ p.nesting)
    {level floor : Nat} (hn : p.nesting ≤ level) (hl : floor ≤ s.lower) (hu : floor ≤ s.upper) :
    Reads (expression level) floor p := by
  intro front rest hk hb happ
  obtain ⟨level, rfl⟩ : ∃ n, level = n + 1 := ⟨level - 1, by omega⟩
  obtain ⟨e, bound, h, hshape, heq⟩ :=
    ha hk hn hl (fun hbu => hb (hbu.mono hu)) happ
  refine ⟨e, hshape, ?_⟩
  rw [heq, chain_stop h hb, plain_ok]

theorem arriving_atom {kind : Token.Kind} {shape : Shape} (make : Span → Expr)
    (hshape : ∀ span, (make span).shape = shape)
    (h : ∀ nested span rest, ¬ Applies rest →
      plain (operand nested (⟨kind, span⟩ :: rest)) = .ok (make span, rest)) :
    Arriving .primary (.atom kind shape) := by
  intro level floor front rest hk _ _ _ happ
  obtain ⟨span, rfl⟩ := exists_of_kinds_singleton hk
  exact arrives_of_operand (hshape span) (h _ span rest happ)

theorem arriving_identifier (name : String) :
    Arriving .primary (.atom (.identifier name) (.identifier name)) := by
  refine arriving_atom (.identifier name) (fun _ => rfl) fun nested span rest happ => ?_
  unfold operand
  simp only
  unfold named
  split
  · exact absurd ⟨_, _, Or.inl rfl⟩ happ
  · exact absurd ⟨_, _, Or.inr rfl⟩ happ
  · exact absurd ⟨_, _, Or.inr rfl⟩ happ
  · exact absurd ⟨_, _, Or.inr rfl⟩ happ
  · rfl

theorem arriving_group {p : Phrase} (ha : Arriving .disjunction p) (hpos : 1 ≤ p.nesting) :
    Arriving .primary p.group := by
  intro level floor front rest hk hn _ _ _
  obtain ⟨start, _, rfl, htail⟩ := exists_of_kinds_cons hk
  obtain ⟨inner, last, rfl, hinner, hlast⟩ := List.map_eq_append_iff.mp htail
  obtain ⟨close, rfl⟩ := exists_of_kinds_singleton hlast
  have hn' : 1 + p.nesting ≤ level + 1 := hn
  have hreads : Reads (expression level) 0 p := ha.reads hpos (by omega) (by decide) (by decide)
  obtain ⟨e, hle, hshape, he⟩ := hreads.before (t := ⟨.closeParen, close⟩) hinner rfl rest
  rw [List.cons_append, List.append_assoc, List.cons_append, List.nil_append]
  refine arrives_of_operand hshape ?_
  unfold operand
  simp only [he]
  rfl

theorem arriving_call {name : List Token.Kind} {callee : Callee} {ps : List Phrase}
    (hname : ∀ nested front start inside, front.map Token.kind = name →
      ∃ (span : Span) (bound : Nat) (h : inside.length ≤ bound),
        plain (operand nested (front ++ ⟨.openParen, start⟩ :: inside)) =
          plain (call nested callee span inside h))
    (hd : ∀ q ∈ ps, Derives .disjunction q) (ha : ∀ q ∈ ps, Arriving .disjunction q) :
    Arriving .primary (.call name callee ps) := by
  intro level floor front rest hk hn _ _ _
  obtain ⟨front, _, rfl, hfront, htail⟩ := List.map_eq_append_iff.mp hk
  obtain ⟨start, args, rfl, hargs⟩ := exists_of_kinds_cons htail
  have hn' : 1 + Phrase.deepest ps ≤ level + 1 := hn
  have hreads : ∀ q ∈ ps, Reads (expression level) 0 q := fun q hq =>
    (ha q hq).reads (hd q hq).nesting_pos
      (Nat.le_trans (Phrase.nesting_le_deepest hq) (by omega)) (by decide) (by decide)
  obtain ⟨span, bound, h, heq⟩ := hname (expression level) front start (args ++ rest) hfront
  obtain ⟨e, hshape, he⟩ := call_reads hd hreads hargs rest callee span h
  rw [List.append_assoc, List.cons_append]
  exact arrives_of_operand hshape (heq.trans he)

theorem arriving_sign {op : Operator} {p : Phrase} (hop : op ∈ [Operator.minus, .not])
    (ha : Arriving .sign p) (hpos : 1 ≤ p.nesting) : Arriving .sign (.sign op p) := by
  intro level floor front rest hk hn _ _ happ
  obtain ⟨start, inner, rfl, hinner⟩ := exists_of_kinds_cons hk
  have hn' : 1 + p.nesting ≤ level + 1 := hn
  have hreads : Reads (expression level) Operator.signStrength p :=
    ha.reads hpos (by omega) (Nat.le_refl _) (Nat.le_refl _)
  obtain ⟨e, hshape, he⟩ := hreads hinner (not_binds_sign rest) happ
  obtain ⟨hle, heq⟩ := exists_of_plain_eq_ok he
  have hsign : ∀ op ∈ [Operator.minus, .not], op.isSign = true := by decide
  have hop' : (Expr.unary op e (start.join e.span)).shape = .unary op p.shape := by
    rw [Expr.shape, hshape]
  refine arrives_of_operand hop' ?_
  rw [List.cons_append]
  unfold operand
  simp only [hsign op hop, heq, if_true]
  rfl

/-- Two operands and an operator whose strengths put the left one before it and the right one
behind it. -/
theorem arriving_binary {s sl sr : Stratum} {op : Operator} {l r : Phrase}
    (hop : op.strength? = some (s.lower, s.upper)) (hl : s.lower ≤ sl.lower)
    (hlu : s.lower < sl.upper) (hr : s.upper ≤ sr.lower) (hru : s.upper ≤ sr.upper)
    (al : Arriving sl l) (ar : Arriving sr r) (hpos : 1 ≤ r.nesting) :
    Arriving s (l.binary op r) := by
  intro level floor front rest hk hn hf hb happ
  obtain ⟨f, _, rfl, hfk, htail⟩ := List.map_eq_append_iff.mp hk
  obtain ⟨opSpan, g, rfl, hgk⟩ := exists_of_kinds_cons htail
  have hn' : max l.nesting (1 + r.nesting) ≤ level + 1 := hn
  -- the loop is reached with the left operand, since `op` does not bind inside it
  have hnb : ¬ Binds sl.upper (⟨.operator op, opSpan⟩ :: (g ++ rest)) := by
    rintro ⟨op', _, _, _, _, hts, hop', hle⟩
    cases hts
    rw [hop] at hop'
    cases hop'
    omega
  have hna : ¬ Applies (⟨.operator op, opSpan⟩ :: (g ++ rest)) := by
    rintro ⟨_, _, hts | hts⟩ <;> cases hts
  have hleft : Arrives level floor (f ++ ⟨.operator op, opSpan⟩ :: (g ++ rest)) l.shape _ :=
    al hfk (by omega) (Nat.le_trans hf hl) hnb hna
  obtain ⟨e, bound, h, hshape, heq⟩ := hleft
  -- and goes on with the right operand, which nothing in `rest` continues
  have hreads : Reads (expression level) s.upper r := ar.reads hpos (by omega) hr hru
  obtain ⟨e', hshape', he'⟩ := hreads hgk hb happ
  obtain ⟨h', hstep⟩ := chain_step e hop hf he' h
  refine ⟨.binary e op e' (e.span.join e'.span), bound, h', ?_, ?_⟩
  · rw [Expr.shape, hshape, hshape']; rfl
  · rw [List.append_assoc, List.cons_append, heq, hstep]

theorem arriving_tighter {s : Stratum} {p : Phrase} (ha : Arriving s.tighter p) : Arriving s p :=
  fun _ _ _ _ hk hn hf hb happ => ha hk hn (Nat.le_trans hf s.lower_le_tighter)
    (fun hb' => hb (hb'.mono s.upper_le_tighter)) happ

theorem Derives.arriving {s : Stratum} {p : Phrase} (d : Derives s p) : Arriving s p := by
  induction d with
  | identifier name => exact arriving_identifier name
  | number digits => exact arriving_atom (.number digits) (fun _ => rfl) fun _ _ _ _ => rfl
  | text contents => exact arriving_atom (.text contents) (fun _ => rfl) fun _ _ _ _ => rfl
  | boolean value => exact arriving_atom (.boolean value) (fun _ => rfl) fun _ _ _ _ => rfl
  | null => exact arriving_atom .null (fun _ => rfl) fun _ _ _ _ => rfl
  | group d ih => exact arriving_group ih d.nesting_pos
  | call name hd ih =>
    refine arriving_call (fun nested front start inside hk => ?_) hd ih
    obtain ⟨span, rfl⟩ := exists_of_kinds_singleton hk
    exact ⟨span, _, _, rfl⟩
  | member scope name hd ih =>
    refine arriving_call (fun nested front start inside hk => ?_) hd ih
    obtain ⟨span, _, rfl, hdot⟩ := exists_of_kinds_cons hk
    obtain ⟨dot, _, rfl, hmember⟩ := exists_of_kinds_cons hdot
    obtain ⟨_, rfl⟩ := exists_of_kinds_singleton hmember
    exact ⟨span, _, _, rfl⟩
  | sign hop d ih => exact arriving_sign hop ih d.nesting_pos
  | power _ dr ihl ihr =>
    exact arriving_binary rfl (by decide) (by decide) (by decide) (by decide) ihl ihr dr.nesting_pos
  | binary hop _ dr ihl ihr =>
    obtain ⟨hlt, hle⟩ := Stratum.upper_le_lower_tighter hop
    exact arriving_binary (Stratum.strength?_eq_of_mem hop) (Nat.le_refl _) hlt hle
      (Stratum.upper_le_tighter _) ihl ihr dr.nesting_pos
  | tighter _ ih => exact arriving_tighter ih

/-- **The parser reads a phrase** that nests at most as deep as it may, and stops after it. -/
theorem Derives.reads {p : Phrase} (d : Derives .disjunction p) {level : Nat}
    (hn : p.nesting ≤ level) : Reads (expression level) 0 p :=
  d.arriving.reads d.nesting_pos hn (by decide) (by decide)

/-! ### Whole texts -/

/-- What the parser does after the last of the statements `read`: it goes on with the next line, or
stops at the end of the text. -/
def afterStatement (read : List Expr) : List Token → Except ParseError (List Expr)
  | ⟨.newline, _⟩ :: after => statements read after
  | ⟨.finish, _⟩ :: _ => .ok read.reverse
  | after => .error ⟨.unexpectedToken, nextOffset after⟩

theorem statements_line {t : Token} (h1 : t.kind ≠ .newline) (h2 : t.kind ≠ .finish)
    (read : List Expr) (ts : List Token) :
    statements read (t :: ts) = (plain (expression maxNesting 0 (t :: ts))).bind
      fun statement => afterStatement (statement.1 :: read) statement.2 := by
  rw [statements.eq_def]
  split
  · next h => cases h
  · next h => cases h; exact absurd rfl h2
  · next h => cases h; exact absurd rfl h1
  · next h =>
    cases h
    cases expression maxNesting 0 (t :: ts) with
    | error e => rfl
    | ok statement =>
      obtain ⟨e, rest, hle⟩ := statement
      cases rest with
      | nil => rfl
      | cons next after =>
        obtain ⟨k, span⟩ := next
        cases k <;> rfl

theorem Derives.statements_eq {p : Phrase} (d : Derives .disjunction p)
    (hn : p.nesting ≤ maxNesting) {front : List Token} (hk : front.map Token.kind = p.kinds)
    {t : Token} (ht : t.kind.ends = true) (ts : List Token) :
    ∃ e : Expr, e.shape = p.shape ∧
      ∀ read, statements read (front ++ t :: ts) = afterStatement (e :: read) (t :: ts) := by
  obtain ⟨e, hle, hshape, he⟩ := (d.reads hn).before hk ht ts
  refine ⟨e, hshape, fun read => ?_⟩
  obtain ⟨k, ks, hkinds, hbegins⟩ := d.head
  obtain ⟨span, rest, rfl, -⟩ := exists_of_kinds_cons (hk.trans hkinds)
  have he' : plain (expression maxNesting 0 (⟨k, span⟩ :: (rest ++ t :: ts))) = .ok (e, t :: ts) :=
    congrArg plain he
  rw [List.cons_append, statements_line, he']
  · rfl
  · intro h; cases h; cases hbegins
  · intro h; cases h; cases hbegins

/-- **The parser reads every text of the grammar** whose phrases nest at most as deep as they
may. -/
theorem Program.reads {ks : List Token.Kind} {ps : List Phrase} (h : Program ks ps)
    (hn : ∀ p ∈ ps, p.nesting ≤ maxNesting) {ts : List Token} (hk : ts.map Token.kind = ks)
    (read : List Expr) : ∃ es : List Expr, es.map Expr.shape = ps.map Phrase.shape ∧
      statements read ts = .ok (read.reverse ++ es) := by
  induction h generalizing ts read with
  | finish =>
    obtain ⟨span, rfl⟩ := exists_of_kinds_singleton hk
    exact ⟨[], rfl, by rw [statements.eq_def, List.append_nil]⟩
  | newline _ ih =>
    obtain ⟨span, rest, rfl, hrest⟩ := exists_of_kinds_cons hk
    obtain ⟨es, hes, hread⟩ := ih hn hrest read
    exact ⟨es, hes, by rw [statements.eq_def]; exact hread⟩
  | @last p d =>
    obtain ⟨front, _, rfl, hfront, hend⟩ := List.map_eq_append_iff.mp hk
    obtain ⟨span, rfl⟩ := exists_of_kinds_singleton hend
    obtain ⟨e, hshape, heq⟩ :=
      d.statements_eq (t := ⟨.finish, span⟩) (hn p (by simp)) hfront rfl []
    exact ⟨[e], by simp [hshape], by rw [heq]; simp [afterStatement]⟩
  | @line p _ ps d _ ih =>
    obtain ⟨front, _, rfl, hfront, hend⟩ := List.map_eq_append_iff.mp hk
    obtain ⟨span, rest, rfl, hrest⟩ := exists_of_kinds_cons hend
    obtain ⟨e, hshape, heq⟩ :=
      d.statements_eq (t := ⟨.newline, span⟩) (hn p (by simp)) hfront rfl rest
    obtain ⟨es, hes, hread⟩ := ih (fun q hq => hn q (by simp [hq])) hrest (e :: read)
    refine ⟨e :: es, by simp [hshape, hes], ?_⟩
    rw [heq, afterStatement, hread]
    simp

end LanguageServer.Script
