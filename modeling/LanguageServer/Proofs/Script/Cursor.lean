import LanguageServer.Proofs.Script.Exact
import LanguageServer.Proofs.Script.Readers
import LanguageServer.Proofs.Script.Rounds
import LanguageServer.Proofs.Script.Runs

/-! # The cursor stays within the tokens

Each function of the machine does what the reader of the same part of the grammar does, for the
tokens of a text from any place on, within as many rounds as tokens are left: a round of a loop
takes a token, and so does an operand before any expression in it is read.

* `call_follows`, `named_follows`, `operand_follows`: the functions that do not loop;
* `arguments_follows`, `infixes_follows`: the loops in an expression, by induction on the rounds;
* `expression_follows`: by induction on the rounds as well, with one more expression open for those
  in it;
* `statements_follows`, `cursor_within`: whole texts. -/

namespace LanguageServer.Script

/-! ### Statements -/

section Statements
variable {α β γ : Type} {t : Token}

theorem statements_dropWhile (read : List Expr) (ts : List Token) :
    statements read (ts.dropWhile fun t => t.kind = .newline) =
      statements read ts := by
  induction ts with
  | nil => rfl
  | cons t ts ih =>
    by_cases hline : t.kind = .newline
    · obtain ⟨_, span⟩ := t
      obtain rfl := hline
      rw [List.dropWhile_cons_of_pos (by simp), ih, statements.eq_def read (_ :: ts)]
    · rw [List.dropWhile_cons_of_neg (by simpa using hline)]

theorem map_bind_eq (r : Except ParseError α) (f : α → Except ParseError β) (g : β → γ) :
    (r.bind f).map g = r.bind fun a => (f a).map g := by cases r <;> rfl

theorem map_fst (r : Except ParseError α) (b : β) :
    (r.map fun a => (a, b)).map Prod.fst = r := by cases r <;> rfl

theorem afterStatement_ends (read : List Expr) (ht : t.kind = .newline ∨ t.kind = .finish)
    (rest : List Token) : afterStatement read (t :: rest) = statements read (t :: rest) := by
  obtain ⟨_, span⟩ := t
  rw [statements.eq_def]
  rcases ht with ht | ht <;> obtain rfl := ht <;> rfl

theorem afterStatement_fault (read : List Expr) (ht : ¬ (t.kind = .newline ∨ t.kind = .finish))
    (rest : List Token) :
    afterStatement read (t :: rest) = .error ⟨.unexpectedToken, t.span.start⟩ := by
  obtain ⟨kind, span⟩ := t
  cases kind with
  | newline => exact absurd (.inl rfl) ht
  | finish => exact absurd (.inr rfl) ht
  | _ => rfl

end Statements

namespace Machine

variable {ts rest : List Token} {c : Cursor} {t : Token}

/-! ### Calls -/

theorem closing_follows {bound : Nat} (hts : Finished ts) (h : Before ts c rest)
    (hbound : rest.length ≤ bound) :
    Follows ts 1 c (expect ts .closeParen .expectedCloseParen) (plain (closing rest hbound)) := by
  obtain ⟨t, after, rfl⟩ := h.exists_cons
  by_cases hclose : t.kind = .closeParen
  · obtain ⟨_, span⟩ := t
    obtain rfl := hclose
    exact expect_follows _ hts h nofun
  · rw [closing_fault hbound (ahead_ne .closeParen rfl hclose after)]
    exact .advance_complain hts h (if_neg hclose)

/-- **The machine reads expressions as the reader does,** where `depth` expressions are open and the
tokens that are left are within the bound. -/
def FollowsNested (ts : List Token) (depth bound : Nat) (machine : Nat → Machine Expr)
    (nested : ExprReader) : Prop :=
  ∀ ⦃floor : Nat⦄ ⦃c : Cursor⦄ ⦃rest : List Token⦄, Before ts c rest → c.depth = depth →
    rest.length ≤ bound → Follows ts 1 c (machine floor) (plain (nested floor rest))

section Nested
variable {depth bound : Nat} {machine : Nat → Machine Expr} {nested : ExprReader}

theorem arguments_follows (hts : Finished ts)
    (hnested : FollowsNested ts depth bound machine nested) {rounds : Nat} {read : List Expr}
    (h : Before ts c rest) (hdepth : c.depth = depth) (hbound : rest.length ≤ bound)
    (hrounds : rest.length ≤ rounds) :
    Follows ts 1 c (arguments ts machine rounds read)
      (plain (argumentList nested read rest (length_le_self rest))) := by
  induction rounds generalizing c rest read with
  | zero => exact absurd hrounds h.not_length_le_zero
  | succ rounds ih =>
    rw [argumentList_eq]
    refine .bind h (hnested h hdepth hbound) fun arg c' rest' _ hc' hdepth' hmoved => ?_
    have hlength := h.length_le hc' hmoved
    obtain ⟨t, after, rfl⟩ := hc'.exists_cons
    refine .peek hc' ?_
    by_cases hcomma : t.kind = .comma
    · rw [if_pos hcomma]
      obtain ⟨_, span⟩ := t
      obtain rfl := hcomma
      -- the argument and the comma have been taken, and one round
      simp only [List.length_cons] at hlength
      refine (Follows.advance hts hc' nofun (Follows.weaken ?_ (Nat.zero_le 1))).weaken
        (Nat.zero_le _)
      exact ih (hc'.next hts nofun) (hdepth'.trans hdepth) (by omega) (by omega)
    · rw [if_neg hcomma]
      simp only [afterArgument_stop _ (ahead_ne .comma rfl hcomma after)]
      exact .pure hc' _

theorem call_follows (hts : Finished ts) (hnested : FollowsNested ts depth bound machine nested)
    {limit : Nat} {callee : Callee} {start span : Span}
    (h : Before ts c (⟨.openParen, span⟩ :: rest)) (hdepth : c.depth = depth)
    (hbound : rest.length ≤ bound) (hlimit : rest.length ≤ limit) :
    Follows ts 1 c (call ts machine bound callee start)
      (plain (Script.call nested callee start rest hlimit)) := by
  refine .andThen h (expect_follows _ hts h nofun) fun c' hc' hdepth' _ => ?_
  obtain ⟨t, after, rfl⟩ := hc'.exists_cons
  refine .peek hc' ?_
  by_cases hclose : t.kind = .closeParen
  · rw [if_pos hclose]
    obtain ⟨_, close⟩ := t
    obtain rfl := hclose
    refine .andThen hc' (Follows.pure hc' []) fun c'' hc'' _ _ => ?_
    exact ((expect_follows _ hts hc'' nofun).map hc'').weaken (Nat.zero_le _)
  · rw [if_neg hclose, call_eq hlimit (ahead_ne .closeParen rfl hclose after)]
    have hargs : Follows ts 1 c' (arguments ts machine bound []) _ :=
      arguments_follows hts hnested hc' (hdepth'.trans hdepth) hbound hbound
    refine .bind hc' (hargs.weaken (Nat.zero_le _)) fun args c'' rest' _ hc'' _ _ => ?_
    exact ((closing_follows hts hc'' (length_le_self _)).map hc'').weaken (Nat.zero_le _)

theorem named_follows (hts : Finished ts) (hnested : FollowsNested ts depth bound machine nested)
    {limit : Nat} {name : String} {span : Span} (h : Before ts c rest)
    (hdepth : c.depth = depth) (hbound : rest.length ≤ bound) (hlimit : rest.length ≤ limit) :
    Follows ts 0 c (named ts machine bound name span)
      (plain (Script.named nested name span rest hlimit)) := by
  obtain ⟨⟨kind, place⟩, after, rfl⟩ := h.exists_cons
  refine .peek h ?_
  cases kind with
  | openParen =>
    exact (call_follows hts hnested h hdepth (tail_le hbound) (tail_le hlimit)).weaken
      (Nat.zero_le _)
  | dot =>
    have hmember := h.next hts nofun
    refine (Follows.advance hts h nofun ?_).weaken (Nat.zero_le _)
    obtain ⟨⟨kind, place'⟩, after, rfl⟩ := hmember.exists_cons
    cases kind with
    | identifier member =>
      have hparen := hmember.next hts nofun
      refine (Follows.advance hts hmember nofun ?_).weaken (Nat.zero_le _)
      obtain ⟨t, inside, rfl⟩ := hparen.exists_cons
      refine .peek hparen ?_
      by_cases hopen : t.kind = .openParen
      · rw [if_pos hopen]
        obtain ⟨_, place''⟩ := t
        obtain rfl := hopen
        exact (call_follows hts hnested hparen hdepth (tail_le (tail_le (tail_le hbound)))
          (tail_le (tail_le (tail_le hlimit)))).weaken (Nat.zero_le _)
      · rw [if_neg hopen, named_no_paren hlimit (ahead_ne .openParen rfl hopen inside)]
        exact .complain hparen _
    | _ =>
      rw [named_no_function hlimit fun member => ahead_ne (.identifier member) rfl (by nofun) after]
      exact .advance_complain hts hmember rfl
  | _ =>
    rw [named_name hlimit (ahead_ne .openParen rfl (by nofun) after)
      (ahead_ne .dot rfl (by nofun) after)]
    exact .pure h _

/-! ### Operands and chains -/

/-- **An operand.** Each way to read one takes its first token. -/
theorem operand_follows (hts : Finished ts) (hnested : FollowsNested ts depth bound machine nested)
    (h : Before ts c (t :: rest)) (hdepth : c.depth = depth) (hbound : rest.length ≤ bound) :
    Follows ts 1 c (operand ts machine bound) (plain (Script.operand nested (t :: rest))) := by
  obtain ⟨kind, span⟩ := t
  cases kind with
  | identifier name =>
    exact .advance hts h nofun
      (named_follows hts hnested (h.next hts nofun) hdepth hbound (Nat.le_succ _))
  | number digits => exact .advance hts h nofun (.pure (h.next hts nofun) _)
  | text contents => exact .advance hts h nofun (.pure (h.next hts nofun) _)
  | boolean value => exact .advance hts h nofun (.pure (h.next hts nofun) _)
  | null => exact .advance hts h nofun (.pure (h.next hts nofun) _)
  | operator op =>
    by_cases hop : op.isSign = true
    · have hnext := h.next hts nofun
      rw [operand_sign hop]
      refine .advance hts h nofun ?_
      simp only [if_pos hop]
      exact ((hnested hnext hdepth hbound).map hnext).weaken (Nat.zero_le _)
    · have hbegins : (Token.Kind.operator op).begins = false := Bool.eq_false_iff.mpr hop
      rw [operand_fault rfl hbegins rfl]
      exact .advance_complain hts h (if_neg hop)
  | openParen =>
    have hnext := h.next hts nofun
    rw [operand_group]
    refine .advance hts h nofun ?_
    refine .bind hnext ((hnested hnext hdepth hbound).weaken (Nat.zero_le _))
      fun inner c' rest' _ hc' _ _ => ?_
    exact ((closing_follows hts hc' (length_le_self _)).map hc').weaken (Nat.zero_le _)
  | finish => exact .advance_finish h rfl (.complain h _)
  | closeParen | comma | dot | newline => exact .advance_complain hts h rfl

theorem infixes_follows (hts : Finished ts)
    (hnested : FollowsNested ts depth bound machine nested) {rounds floor : Nat} {left : Expr}
    (h : Before ts c rest) (hdepth : c.depth = depth) (hbound : rest.length ≤ bound)
    (hrounds : rest.length ≤ rounds) :
    Follows ts 0 c (infixes ts machine floor rounds left)
      (plain (chain nested floor left rest (length_le_self rest))) := by
  induction rounds generalizing c rest left with
  | zero => exact absurd hrounds h.not_length_le_zero
  | succ rounds ih =>
    obtain ⟨⟨kind, span⟩, after, rfl⟩ := h.exists_cons
    refine .peek h ?_
    by_cases hbinds : Binds floor (⟨kind, span⟩ :: after)
    · obtain ⟨op, _, _, l, r, ⟨⟩, hop, hle⟩ := hbinds
      have hnext := h.next hts nofun
      rw [chain_eq left hop hle]
      simp only [hop, if_neg (Nat.not_lt.mpr hle)]
      refine (Follows.advance hts h nofun ?_).weaken (Nat.zero_le _)
      refine .bind hnext ((hnested hnext hdepth (tail_le hbound)).weaken (Nat.zero_le _))
        fun right c' rest' _ hc' hdepth' hmoved => ?_
      have hlength : rest'.length ≤ after.length := hnext.length_le hc' hmoved
      exact ih hc' (hdepth'.trans hdepth) (Nat.le_trans hlength (tail_le hbound))
        (Nat.le_trans hlength (Nat.le_of_succ_le_succ hrounds))
    · rw [chain_stop _ hbinds]
      cases kind with
      | operator op =>
        simp only
        split
        · exact .pure h _
        · next l r hop =>
          rw [if_pos (Nat.lt_of_not_le fun hle => hbinds ⟨op, span, after, l, r, rfl, hop, hle⟩)]
          exact .pure h _
      | _ => exact .pure h _

end Nested

/-! ### Expressions -/

/-- **An expression** takes a token before any expression in it is read, so the tokens left bound
how many are in one another. -/
theorem expression_follows (hts : Finished ts) {rounds floor : Nat} (h : Before ts c rest)
    (hrounds : rest.length ≤ rounds) :
    Follows ts 1 c (expression ts rounds floor)
      (plain (Script.expression (maxNesting - c.depth) floor rest)) := by
  induction rounds generalizing c rest floor with
  | zero => exact absurd hrounds h.not_length_le_zero
  | succ rounds ih =>
    obtain ⟨t, after, rfl⟩ := h.exists_cons
    refine .here ?_
    rcases Nat.lt_or_ge c.depth maxNesting with hopen | hdeep
    · have hlevel : maxNesting - c.depth = maxNesting - (c.depth + 1) + 1 := by omega
      have hinside : Before ts ⟨c.pos, c.depth + 1⟩ (t :: after) := ⟨h.pos_lt, hopen, h.drop_eq⟩
      -- what is nested begins behind the first token, so one round less is enough
      have hnested : FollowsNested ts (c.depth + 1) rounds (expression ts rounds)
          (Script.expression (maxNesting - (c.depth + 1))) := fun floor c' rest' hc' hdepth hle =>
        hdepth ▸ ih hc' hle
      rw [if_neg (Nat.not_le.mpr hopen), hlevel, expression_eq]
      refine .deeper h hopen ?_
      refine .bind hinside (operand_follows hts hnested hinside rfl
        (Nat.le_of_succ_le_succ hrounds)) fun left c' rest' _ hc' hdepth hmoved => ?_
      have hlength := hinside.length_le hc' hmoved
      have hleft : rest'.length ≤ rounds := Nat.le_of_succ_le_succ (Nat.le_trans hlength hrounds)
      exact infixes_follows hts hnested hc' hdepth hleft hleft
    · rw [if_pos hdeep, Nat.sub_eq_zero_of_le hdeep]
      exact .peek h (.complain h _)

/-! ### Whole texts -/

theorem skipNewlines_follows (hts : Finished ts) {rounds : Nat} (h : Before ts c rest)
    (hrounds : rest.length ≤ rounds) :
    Follows ts 0 c (skipNewlines ts rounds)
      (.ok ((), rest.dropWhile fun t => t.kind = .newline)) := by
  induction rounds generalizing c rest with
  | zero => exact absurd hrounds h.not_length_le_zero
  | succ rounds ih =>
    obtain ⟨t, after, rfl⟩ := h.exists_cons
    refine .peek h ?_
    by_cases hline : t.kind = .newline
    · have ht : t.kind ≠ .finish := by rw [hline]; nofun
      rw [if_pos hline, List.dropWhile_cons_of_pos (by simpa using hline)]
      exact (Follows.advance hts h ht (ih (h.next hts ht) (Nat.le_of_succ_le_succ hrounds))).weaken
        (Nat.zero_le _)
    · rw [if_neg hline, List.dropWhile_cons_of_neg (by simpa using hline)]
      exact .pure h ()

/-- **The loop over statements** takes a token in each round, up to the last one. -/
theorem statements_follows (hts : Finished ts) {rounds : Nat} {read : List Expr}
    (h : Before ts c rest) (hdepth : c.depth = 0) (hrounds : rest.length ≤ rounds) :
    Follows ts 0 c (statements ts rounds read)
      ((Script.statements read rest).map fun es => (es, ts.drop (ts.length - 1))) := by
  induction rounds generalizing c rest read with
  | zero => exact absurd hrounds h.not_length_le_zero
  | succ rounds ih =>
    rw [← statements_dropWhile]
    refine .andThen h (skipNewlines_follows hts h hrounds) fun c' hc' hdepth' hmoved => ?_
    have hlength : (rest.dropWhile fun t => t.kind = .newline).length ≤ rest.length :=
      h.length_le hc' hmoved
    have hhead := List.head?_dropWhile_not (fun t : Token => decide (t.kind = .newline)) rest
    obtain ⟨t, after, hrest⟩ := hc'.exists_cons
    rw [hrest] at hc' hlength hhead ⊢
    have hline : t.kind ≠ .newline := by simpa using hhead
    refine .peek hc' ?_
    by_cases hfinish : t.kind = .finish
    · have hread : Script.statements read (t :: after) = .ok read.reverse := by
        obtain ⟨_, span⟩ := t
        obtain rfl := hfinish
        rw [Script.statements.eq_def]
      rw [if_pos hfinish, hread]
      rw [hc'.eq_last hts hfinish] at hc'
      exact .pure hc' _
    · have hopen : c'.depth = 0 := hdepth'.trans hdepth
      have hleft : (t :: after).length ≤ rounds + 1 := Nat.le_trans hlength hrounds
      have hexpression : Follows ts 1 c' (expression ts (rounds + 1) 0) _ :=
        expression_follows hts hc' hleft
      rw [hopen, Nat.sub_zero] at hexpression
      rw [if_neg hfinish, statements_line hline hfinish, map_bind_eq]
      refine Follows.weaken (.bind hc' hexpression fun statement c'' rest' _ hc'' hdepth''
        hmoved' => ?_) (Nat.zero_le 1)
      have hrest' : rest'.length ≤ rounds :=
        Nat.le_of_succ_le_succ (Nat.le_trans (hc'.length_le hc'' hmoved') hleft)
      obtain ⟨t', after', rfl⟩ := hc''.exists_cons
      refine .peek hc'' ?_
      by_cases hends : t'.kind = .newline ∨ t'.kind = .finish
      · -- the line end is left to the next round, and the reader would pass over it there too
        rw [if_pos hends]
        simp only [afterStatement_ends _ hends]
        exact ih hc'' (hdepth''.trans hopen) hrest'
      · rw [if_neg hends]
        simp only [afterStatement_fault _ hends]
        exact .complain hc'' _

/-- **The cursor stays within the tokens of a text.** The machine comes to an end, with as many
rounds for each loop as there are tokens or with more, and gives what the parser gives. Wherever it
looks at a token, the cursor is at most before the last one, the one that ends the text, so its
place is never held down; and at most as many expressions are open as may be. Each expression that
is read moves the cursor on and leaves as many open as before. -/
theorem cursor_within {text : String} {ts : List Token} (h : tokens text = .ok ts) :
    ∃ (all : List Token) (span : Span), ts = all ++ [⟨.finish, span⟩] ∧
      (∀ t ∈ all, t.kind ≠ .finish) ∧
      ∃ (ending : Except ParseError (List Expr)) (last : Cursor) (events : List Event),
        (∀ rounds, ts.length ≤ rounds →
          (statements ts rounds []).runFrom ⟨⟨0, 0⟩, []⟩ = some (ending, ⟨last, events⟩)) ∧
        parse text = ending.map (fun es => .block es ⟨0, text.length⟩) ∧
        last.pos ≤ all.length ∧ last.depth = 0 ∧
        (∀ c, .stands c ∈ events → c.pos ≤ all.length ∧ min c.pos (ts.length - 1) = c.pos ∧
          c.depth ≤ maxNesting) ∧
        ∀ before after, .reads before after ∈ events →
          before.pos < after.pos ∧ after.depth = before.depth := by
  have hts := tokens_finished h
  obtain ⟨all, span, hall, hunfinished⟩ := id hts
  have hlength : ts.length = all.length + 1 := by rw [hall, List.length_append]; rfl
  have hstart : Before ts ⟨0, 0⟩ ts := ⟨by simp only; omega, Nat.zero_le _, rfl⟩
  obtain ⟨⟨ending, last, events⟩, hrun, hsound, hpos, hdepth, hreading, -⟩ :=
    statements_follows hts hstart rfl (Nat.le_refl ts.length)
  simp only at hpos hdepth hreading
  refine ⟨all, span, hall, hunfinished, ending, last, events, fun rounds hrounds => ?_, ?_,
    by omega, hdepth, ?_, ?_⟩
  · have hleast := hrun []
    rw [List.append_nil] at hleast
    exact statements_below hrounds [] hleast
  · have hstatements : Script.statements [] ts = ending := by
      rw [← map_fst (Script.statements [] ts), ← hreading, map_fst]
    rw [parse, h]
    simp only [hstatements]
  · intro c hc
    have hstands : c.pos < ts.length ∧ c.depth ≤ maxNesting := hsound _ hc
    omega
  · exact fun before after hread => hsound _ hread

/-- A call with two arguments, one of them in parentheses, on a line of its own. -/
theorem cursor_within_call :
    let all : List Token :=
      [⟨.identifier "f", ⟨0, 1⟩⟩, ⟨.openParen, ⟨1, 2⟩⟩, ⟨.number "1", ⟨2, 3⟩⟩, ⟨.comma, ⟨3, 4⟩⟩,
        ⟨.openParen, ⟨4, 5⟩⟩, ⟨.identifier "x", ⟨5, 6⟩⟩, ⟨.closeParen, ⟨6, 7⟩⟩,
        ⟨.closeParen, ⟨7, 8⟩⟩, ⟨.newline, ⟨8, 9⟩⟩]
    let ts := all ++ [⟨.finish, ⟨9, 9⟩⟩]
    tokens "f(1,(x))\n" = .ok ts ∧
      ∃ ending last events,
        (∀ rounds, 10 ≤ rounds →
          (statements ts rounds []).runFrom ⟨⟨0, 0⟩, []⟩ = some (ending, ⟨last, events⟩)) ∧
        parse "f(1,(x))\n" = ending.map (fun es => .block es ⟨0, 9⟩) ∧
        last.pos ≤ 9 ∧ last.depth = 0 ∧
        (∀ c, .stands c ∈ events → c.pos ≤ 9 ∧ min c.pos (ts.length - 1) = c.pos ∧
          c.depth ≤ maxNesting) ∧
        ∀ before after, .reads before after ∈ events →
          before.pos < after.pos ∧ after.depth = before.depth := by
  intro all ts
  have htokens : tokens "f(1,(x))\n" = .ok ts := by with_unfolding_all rfl
  obtain ⟨all', span, hall, -, hrun⟩ := cursor_within htokens
  obtain ⟨rfl, -⟩ := List.append_inj' hall rfl
  exact ⟨htokens, hrun⟩

end Machine

end LanguageServer.Script
