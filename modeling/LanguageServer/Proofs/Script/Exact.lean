import LanguageServer.Proofs.Script.Sound

/-! # The parser accepts exactly the grammar

* `scan_invariant`: what each step of the lexer keeps holds of all tokens;
* `lexeme_ne_finish`, `tokens_finished`: the tokens of a text end with the only token that ends it,
  so the parser reads all of them;
* `Derives.unique`, `Program.unique`: the grammar is unambiguous. Two derivations of the same kinds
  are both what the parser reads, if it may go deep enough;
* `parse_exact`: a text is accepted with given statements if and only if the grammar derives them
  from its tokens and they nest at most as deep as they may. -/

namespace LanguageServer.Script

open Token (gap scan lexeme)

/-! ### The end of the tokens -/

theorem quotedText_ne_finish {cs : List Char} {kind : Token.Kind} {more : Nat}
    (h : ((Token.quotedText 0 [] cs).map fun (contents, more) =>
      (Token.Kind.text contents, more)) = .ok (kind, more)) : kind ≠ .finish := by
  cases hq : Token.quotedText 0 [] cs with
  | error e => rw [hq] at h; cases h
  | ok q => rw [hq] at h; cases h; exact nofun

theorem ofWord_ne_finish (word : String) : Token.ofWord word ≠ .finish := by
  unfold Token.ofWord
  split_ifs <;> exact nofun

theorem lexeme_ne_finish {c : Char} {cs : List Char} {kind : Token.Kind} {more : Nat}
    (h : Token.lexeme c cs = .ok (kind, more)) : kind ≠ .finish := by
  unfold Token.lexeme at h
  split_ifs at h
  · cases h; exact nofun
  · cases h; exact nofun
  · cases h; exact nofun
  · cases h; exact nofun
  · cases h; exact nofun
  · exact quotedText_ne_finish h
  · cases h; exact nofun
  · cases h; exact ofWord_ne_finish _
  · split at h
    · cases h; exact nofun
    · cases h

/-- The scan, without the equation that its termination needs. -/
theorem scan_eq (pos : Nat) (cs : List Char) (read : List Token) :
    scan pos cs read =
      match cs.drop (gap cs) with
      | [] => .ok (⟨.finish, ⟨pos + gap cs, pos + gap cs⟩⟩ :: read).reverse
      | c :: after =>
        match lexeme c after with
        | .error (fault, ahead) => .error ⟨fault, pos + gap cs + ahead⟩
        | .ok (kind, more) =>
          scan (pos + gap cs + 1 + more) (after.drop more)
            (⟨kind, ⟨pos + gap cs, pos + gap cs + 1 + more⟩⟩ :: read) := by
  rw [scan.eq_def]
  simp only
  split
  · next hdrop => simp only [hdrop]
  · next c after hdrop =>
    cases hlexeme : lexeme c after with
    | error fault => simp only [hdrop, hlexeme]
    | ok token => simp only [hdrop, hlexeme]

section Step
variable {pos : Nat} {cs after : List Char} {c : Char} {read : List Token}

theorem scan_finish (hdrop : cs.drop (gap cs) = []) :
    scan pos cs read = .ok (read.reverse ++ [⟨.finish, ⟨pos + gap cs, pos + gap cs⟩⟩]) := by
  rw [scan_eq, hdrop, ← List.reverse_cons]

theorem scan_fault {fault : Fault} {ahead : Nat} (hdrop : cs.drop (gap cs) = c :: after)
    (hlexeme : lexeme c after = .error (fault, ahead)) :
    scan pos cs read = .error ⟨fault, pos + gap cs + ahead⟩ := by
  rw [scan_eq, hdrop]
  simp only [hlexeme]

theorem scan_step {kind : Token.Kind} {more : Nat} (hdrop : cs.drop (gap cs) = c :: after)
    (hlexeme : lexeme c after = .ok (kind, more)) :
    scan pos cs read = scan (pos + gap cs + 1 + more) (after.drop more)
      (⟨kind, ⟨pos + gap cs, pos + gap cs + 1 + more⟩⟩ :: read) := by
  rw [scan_eq, hdrop]
  simp only [hlexeme]

end Step

/-- What holds of characters that the scan ends at, and of others if it holds behind their first
token, holds of all. -/
theorem scan_induction {P : List Char → Prop} (finish : ∀ cs, cs.drop (gap cs) = [] → P cs)
    (fault : ∀ cs c after fault ahead, cs.drop (gap cs) = c :: after →
      lexeme c after = .error (fault, ahead) → P cs)
    (step : ∀ cs c after kind more, cs.drop (gap cs) = c :: after →
      lexeme c after = .ok (kind, more) → P (after.drop more) → P cs) (cs : List Char) : P cs := by
  induction hn : cs.length using Nat.strongRecOn generalizing cs with
  | ind n ih =>
    match hdrop : cs.drop (gap cs) with
    | [] => exact finish cs hdrop
    | c :: after =>
      match hlexeme : lexeme c after with
      | .error (fault', ahead) => exact fault cs c after fault' ahead hdrop hlexeme
      | .ok (kind, more) =>
        have hafter := congrArg List.length hdrop
        simp only [List.length_drop, List.length_cons] at hafter
        exact step cs c after kind more hdrop hlexeme
          (ih (after.drop more).length (by simp only [List.length_drop]; omega) _ rfl)

theorem scan_invariant {P : Nat → List Char → List Token → Prop}
    (hstep : ∀ {pos cs read c after kind more}, P pos cs read → cs.drop (gap cs) = c :: after →
      lexeme c after = .ok (kind, more) → P (pos + gap cs + 1 + more) (after.drop more)
        (⟨kind, ⟨pos + gap cs, pos + gap cs + 1 + more⟩⟩ :: read))
    {pos : Nat} {cs : List Char} {read ts : List Token} (h : P pos cs read)
    (hscan : scan pos cs read = .ok ts) :
    ∃ pos cs read, P pos cs read ∧ cs.drop (gap cs) = [] ∧
      ts = (⟨.finish, ⟨pos + gap cs, pos + gap cs⟩⟩ :: read).reverse := by
  induction cs using scan_induction generalizing pos read with
  | finish cs hdrop =>
    rw [scan_finish hdrop] at hscan
    cases hscan
    exact ⟨pos, cs, read, h, hdrop, List.reverse_cons.symm⟩
  | fault cs c after fault ahead hdrop hlexeme =>
    rw [scan_fault hdrop hlexeme] at hscan
    cases hscan
  | step cs c after kind more hdrop hlexeme ih =>
    rw [scan_step hdrop hlexeme] at hscan
    exact ih (hstep h hdrop hlexeme) hscan

/-- **The tokens of a text end with the only token that ends it.** -/
theorem tokens_finished {text : String} {ts : List Token} (h : tokens text = .ok ts) :
    Finished ts := by
  obtain ⟨pos, cs, read, hread, -, rfl⟩ :=
    scan_invariant (P := fun _ _ read => ∀ t ∈ read, t.kind ≠ .finish)
      (fun hread _ hlexeme => List.forall_mem_cons.mpr ⟨lexeme_ne_finish hlexeme, hread⟩)
      (by simp) h
  exact ⟨read.reverse, _, List.reverse_cons, by simpa using hread⟩

theorem exists_of_parse_eq_ok {text : String} {e : Expr} (h : parse text = .ok e) :
    ∃ ts es, tokens text = .ok ts ∧ statements [] ts = .ok es ∧ e = .block es ⟨0, text.length⟩ := by
  unfold parse at h
  split at h
  · cases h
  · next ts hts =>
    cases hst : statements [] ts with
    | error err => rw [hst] at h; cases h
    | ok es =>
      rw [hst] at h
      cases h
      exact ⟨ts, es, hts, hst, rfl⟩

section Parse
variable {text : String} {ts : List Token}

theorem parse_eq_ok (hts : tokens text = .ok ts) {es : List Expr}
    (hst : statements [] ts = .ok es) : parse text = .ok (.block es ⟨0, text.length⟩) := by
  unfold parse
  rw [hts]
  simp only [hst]
  rfl

theorem parse_eq_error (hts : tokens text = .ok ts) {e : ParseError}
    (hst : statements [] ts = .error e) : parse text = .error e := by
  unfold parse
  rw [hts]
  simp only [hst]
  rfl

theorem parse_eq_error_of_tokens {e : ParseError} (h : tokens text = .error e) :
    parse text = .error e := by
  unfold parse
  rw [h]

theorem unfinished_of_tokens {span : Span} (hts : tokens text = .ok (ts ++ [⟨.finish, span⟩])) :
    ∀ t ∈ ts, t.kind ≠ .finish := (tokens_finished hts).unfinished (List.cons_ne_nil _ _)

end Parse

/-! ### The grammar is unambiguous -/

theorem Derives.unique {p q : Phrase} (dp : Derives .disjunction p) (dq : Derives .disjunction q)
    {k k' : Token.Kind} {ks ks' : List Token.Kind} (hk : k.ends = true) (hk' : k'.ends = true)
    (h : p.kinds ++ k :: ks = q.kinds ++ k' :: ks') :
    p.shape = q.shape ∧ k :: ks = k' :: ks' := by
  -- both are what the parser reads off tokens of these kinds, whatever places they have
  let place (k : Token.Kind) : Token := ⟨k, ⟨0, 0⟩⟩
  have hplace : ∀ ks : List Token.Kind, (ks.map place).map Token.kind = ks := fun ks => by
    rw [List.map_map]; exact List.map_id ks
  have hp : Reads (expression (max p.nesting q.nesting)) 0 p := dp.reads (Nat.le_max_left _ _)
  have hq : Reads (expression (max p.nesting q.nesting)) 0 q := dq.reads (Nat.le_max_right _ _)
  obtain ⟨e, _, hshape, he⟩ := hp.before (t := place k) (hplace _) hk (ks.map place)
  obtain ⟨e', _, hshape', he'⟩ := hq.before (t := place k') (hplace _) hk' (ks'.map place)
  have hts : p.kinds.map place ++ place k :: ks.map place =
      q.kinds.map place ++ place k' :: ks'.map place := by
    rw [← List.map_cons, ← List.map_append, h, List.map_append, List.map_cons]
  have hsame := congrArg (fun ts => plain (expression (max p.nesting q.nesting) 0 ts)) hts
  simp only [he, he', plain_ok, Except.ok.injEq, Prod.mk.injEq] at hsame
  obtain ⟨rfl, hrest⟩ := hsame
  refine ⟨hshape.symm.trans hshape', ?_⟩
  have hkinds := congrArg (List.map Token.kind) hrest
  rwa [← List.map_cons, ← List.map_cons, hplace, hplace] at hkinds

/-- Kinds whose first may not begin an expression are not those of a phrase and more. -/
theorem Derives.cons_ne {q : Phrase} (dq : Derives .disjunction q) {k : Token.Kind}
    (hk : k.begins = false) (ks ks' : List Token.Kind) : k :: ks ≠ q.kinds ++ ks' := by
  obtain ⟨k', rest, hkinds, hbegins⟩ := dq.head
  rw [hkinds]
  rintro ⟨⟩
  rw [hk] at hbegins
  cases hbegins

theorem Program.unique {ks : List Token.Kind} {ps qs : List Phrase} (hp : Program ks ps)
    (hq : Program ks qs) : ps.map Phrase.shape = qs.map Phrase.shape := by
  induction hp generalizing qs with
  | finish =>
    generalize hks : [Token.Kind.finish] = ks at hq
    cases hq with
    | finish => rfl
    | newline => cases hks
    | last dq | line dq => exact absurd hks (dq.cons_ne rfl _ _)
  | @newline rest _ _ ih =>
    generalize hks : Token.Kind.newline :: rest = ks at hq
    cases hq with
    | finish => cases hks
    | newline hq => cases hks; exact ih hq
    | last dq | line dq => exact absurd hks (dq.cons_ne rfl _ _)
  | @last p dp =>
    generalize hks : p.kinds ++ [Token.Kind.finish] = ks at hq
    cases hq with
    | finish | newline => exact absurd hks.symm (dp.cons_ne rfl _ _)
    | last dq =>
      obtain ⟨hshape, -⟩ := dp.unique dq rfl rfl hks
      simp [hshape]
    | line dq =>
      obtain ⟨-, hrest⟩ := dp.unique dq rfl rfl hks
      cases hrest
  | @line p rest _ dp _ ih =>
    generalize hks : p.kinds ++ Token.Kind.newline :: rest = ks at hq
    cases hq with
    | finish | newline => exact absurd hks.symm (dp.cons_ne rfl _ _)
    | last dq =>
      obtain ⟨-, hrest⟩ := dp.unique dq rfl rfl hks
      cases hrest
    | line dq hq =>
      obtain ⟨hshape, hrest⟩ := dp.unique dq rfl rfl hks
      cases hrest
      rw [List.map_cons, List.map_cons, hshape, ih hq]

/-- **The parser accepts exactly the grammar.** A text has given statements if and only if its
tokens are those of a text of the grammar with these statements, none of which nests too deep; and
the grammar gives the kinds of tokens of a text at most one list of statements. -/
theorem parse_exact (text : String) (shapes : List Shape) :
    ((∃ e, parse text = .ok e ∧ e.shape = .block shapes) ↔
      ∃ ts ps, tokens text = .ok ts ∧ Program (ts.map Token.kind) ps ∧
        ps.map Phrase.shape = shapes ∧ ∀ p ∈ ps, p.nesting ≤ maxNesting) ∧
    ∀ ks ps qs, Program ks ps → Program ks qs → ps.map Phrase.shape = qs.map Phrase.shape := by
  refine ⟨⟨?_, ?_⟩, fun ks ps qs hp hq => hp.unique hq⟩
  · rintro ⟨e, hparse, hshape⟩
    unfold parse at hparse
    split at hparse
    · cases hparse
    · next ts hts =>
      cases hst : statements [] ts with
      | error err => rw [hst] at hparse; cases hparse
      | ok es =>
        rw [hst] at hparse
        cases hparse
        obtain ⟨new, ps, rfl, hprog, hshapes, hn⟩ := statements_sound (tokens_finished hts) hst
        refine ⟨ts, ps, hts, hprog, ?_, hn⟩
        rw [Expr.shape, Expr.shapes_eq_map] at hshape
        cases hshape
        exact hshapes.symm
  · rintro ⟨ts, ps, hts, hprog, rfl, hn⟩
    obtain ⟨es, hes, hst⟩ := hprog.reads hn rfl []
    refine ⟨.block es ⟨0, text.length⟩, ?_, by rw [Expr.shape, Expr.shapes_eq_map, hes]⟩
    rw [parse, hts]
    simp only [hst]
    rfl

end LanguageServer.Script
