import LanguageServer.Proofs.Script.Completed
import LanguageServer.Proofs.Script.Cut
import LanguageServer.Proofs.Script.Lookahead

/-! # Errors show at the first token that offends

The parser complains about a token: any other text with the same tokens up to it is refused in the
same way. And it complains about the first it can: the text before the token begins a program,
unless an expression nests too deeply.

* `Program.exists_finish`: the grammar puts the end of the text behind everything else;
* `exists_cuts_fillers`, `exists_tokens_filled`: fillers, written behind the text before a token;
* `parse_offence`: the token, the texts that share it, and the program that the text before it
  begins. -/

namespace LanguageServer.Script

open Token (scan isSpacing)

/-! ### The end of a text -/

theorem forall_mem_separated {P : Token.Kind → Prop} (hcomma : P .comma) {ps : List Phrase}
    (h : ∀ p ∈ ps, ∀ k ∈ p.kinds, P k) : ∀ k ∈ Phrase.separated ps, P k := by
  induction ps with
  | nil => simp [Phrase.separated, List.intercalate]
  | cons p ps ih =>
    obtain ⟨hp, hps⟩ := List.forall_mem_cons.mp h
    cases ps with
    | nil => rwa [Phrase.separated_singleton]
    | cons q qs =>
      rw [Phrase.separated_cons]
      exact List.forall_mem_append.mpr ⟨hp, List.forall_mem_cons.mpr ⟨hcomma, ih hps⟩⟩

theorem Derives.endsLine {s : Stratum} {p : Phrase} (d : Derives s p) :
    ∀ k ∈ p.kinds, k.endsLine = false := by
  induction d with
  | identifier | number | text | boolean | null => simp [Phrase.atom, Token.Kind.endsLine]
  | group _ ih => simpa [Phrase.group, Token.Kind.endsLine, or_imp, forall_and] using ih
  | call name _ ih =>
    have hargs := forall_mem_separated (P := fun k => k.endsLine = false) rfl ih
    simpa [Phrase.call, Token.Kind.endsLine, or_imp, forall_and] using hargs
  | member scope name _ ih =>
    have hargs := forall_mem_separated (P := fun k => k.endsLine = false) rfl ih
    simpa [Phrase.call, Token.Kind.endsLine, or_imp, forall_and] using hargs
  | sign _ _ ih => simpa [Phrase.sign, Token.Kind.endsLine, or_imp, forall_and] using ih
  | power _ _ ihl ihr | binary _ _ _ ihl ihr =>
    simpa [Phrase.binary, Token.Kind.endsLine, or_imp, forall_and] using ⟨ihl, ihr⟩
  | tighter _ ih => exact ih

theorem Derives.finish_notMem {s : Stratum} {p : Phrase} (d : Derives s p) :
    Token.Kind.finish ∉ p.kinds := fun h => by
  cases d.endsLine _ h

/-- **The end of a text is behind everything else.** -/
theorem Program.exists_finish {ks : List Token.Kind} {ps : List Phrase} (h : Program ks ps) :
    ∃ front, ks = front ++ [.finish] ∧ Token.Kind.finish ∉ front := by
  induction h with
  | finish => exact ⟨[], rfl, List.not_mem_nil⟩
  | newline _ ih =>
    obtain ⟨front, rfl, hfront⟩ := ih
    exact ⟨.newline :: front, rfl, by simpa using hfront⟩
  | @last p d => exact ⟨p.kinds, rfl, d.finish_notMem⟩
  | @line p _ _ d _ ih =>
    obtain ⟨front, rfl, hfront⟩ := ih
    exact ⟨p.kinds ++ .newline :: front, by simp, by simp [d.finish_notMem, hfront]⟩

/-! ### Fillers as text -/

theorem exists_cuts_filler {k : Token.Kind} (h : k ∈ fillers) :
    ∃ cs, ∀ rest, Cuts (cs ++ rest) [k] rest := by
  have hspace (rest : List Char) : Cuts (' ' :: rest) [] rest := cuts_spacing (by decide) rest
  simp only [fillers, List.mem_cons, List.not_mem_nil, or_false] at h
  rcases h with rfl | rfl | rfl | rfl
  · have hone : IsNumber "1" := ⟨'1', [], rfl, rfl, [], [], rfl, by simp, Or.inl rfl⟩
    exact ⟨['1', ' '], fun rest => (cuts_number hone (by simp)).trans (hspace rest)⟩
  · have hname : IsName "f" := ⟨⟨'f', [], rfl, by decide, by simp⟩, by decide⟩
    have hstop : Token.isWordChar ' ' = false := isWordChar_of_isBlank (by decide)
    exact ⟨['f', ' '], fun rest => (cuts_name hname (by simpa using hstop)).trans (hspace rest)⟩
  · exact ⟨['('], cuts_mark (by decide)⟩
  · exact ⟨[')'], cuts_mark (by decide)⟩

/-- **Fillers can be written** one after the other. -/
theorem exists_cuts_fillers {more : List Token.Kind} (h : more ⊆ fillers) :
    ∃ cs, ∀ rest, Cuts (cs ++ rest) more rest := by
  induction more with
  | nil => exact ⟨[], Cuts.refl⟩
  | cons k more ih =>
    obtain ⟨hk, hmore⟩ := List.cons_subset.mp h
    obtain ⟨cs, hcs⟩ := ih hmore
    obtain ⟨ds, hds⟩ := exists_cuts_filler hk
    refine ⟨ds ++ cs, fun rest => ?_⟩
    rw [List.append_assoc]
    exact (hds _).trans (hcs rest)

section Text
variable {text : String} {front behind : List Token} {t : Token}

/-- **The text before a token goes on with fillers:** its tokens are those before the token, the
fillers, and the end of the text. -/
theorem exists_tokens_filled (h : tokens text = .ok (front ++ t :: behind))
    {more : List Token.Kind} (hmore : more ⊆ fillers) :
    ∃ filled ts, tokens (String.ofList (text.toList.take (lastStop front)) ++ filled) = .ok ts ∧
      ts.map Token.kind = front.map Token.kind ++ (more ++ [.finish]) := by
  obtain ⟨cs, hcs⟩ := exists_cuts_fillers hmore
  have hspaced : Cuts (' ' :: cs) more [] := by
    have hall := (cuts_spacing (c := ' ') (by decide) (cs ++ [])).trans (hcs [])
    rwa [List.append_nil] at hall
  obtain ⟨pos, ts, hts, hscan⟩ := hspaced (lastStop front) front.reverse
  have hend : scan pos [] (ts.reverse ++ front.reverse) =
      .ok ((ts.reverse ++ front.reverse).reverse ++ [⟨.finish, ⟨pos, pos⟩⟩]) := scan_finish rfl
  have hcut := (tokens_cut h).cut 0 ' ' cs (by decide)
  rw [Nat.add_zero, List.take_zero, List.nil_append, hscan, hend] at hcut
  refine ⟨String.ofList (' ' :: cs), (ts.reverse ++ front.reverse).reverse ++
    [⟨.finish, ⟨pos, pos⟩⟩], ?_, by simp [hts]⟩
  rw [tokens, String.toList_append, String.toList_ofList, String.toList_ofList, hcut]

theorem front_eq_of_start (h : tokens text = .ok (front ++ t :: behind)) {front' behind' : List Token}
    {t' : Token} (heq : front ++ t :: behind = front' ++ t' :: behind')
    (hstart : t.span.start = t'.span.start) : front = front' := by
  have h' := heq ▸ h
  rcases List.append_eq_append_iff.mp heq with ⟨more, rfl, hmore⟩ | ⟨more, rfl, hmore⟩
  · cases more with
    | nil => exact (List.append_nil front).symm
    | cons u more =>
      obtain ⟨rfl, -⟩ := List.cons.inj hmore
      have := stop_le_of_mem_before h' (u := t) (by simp)
      omega
  · cases more with
    | nil => exact List.append_nil front'
    | cons u more =>
      obtain ⟨rfl, -⟩ := List.cons.inj hmore
      have := stop_le_of_mem_before h (u := t') (by simp)
      omega

theorem start_le_length (h : tokens text = .ok (front ++ t :: behind)) :
    t.span.start ≤ text.length := by
  rcases tokens_tile text with ⟨all, hall, hunfinished, -⟩ | ⟨e, he, -⟩
  · have heq := Except.ok.inj (h.symm.trans hall)
    have hmem : t ∈ all ++ [⟨.finish, ⟨text.length, text.length⟩⟩] := by simp [← heq]
    rcases List.mem_append.mp hmem with hmem | hmem
    · have hpos := (tokens_ordered h).pos t (by simp) (hunfinished t hmem)
      have hle := (tokens_ordered h).le t (by simp)
      omega
    · rw [List.mem_singleton.mp hmem]
  · cases he.symm.trans h

/-- What stands before the error begins a program, unless an expression nests too deeply. -/
theorem exists_parse_filled (h : tokens text = .ok (front ++ t :: behind)) {why : Fault}
    (hst : statements [] (front ++ t :: behind) = .error ⟨why, t.span.start⟩)
    (hdeep : why ≠ .nestedTooDeeply) :
    ∃ more p, parse (String.ofList (text.toList.take (lastStop front)) ++ more) = .ok p := by
  obtain ⟨front', tail, more, ps, heq, hoffset, hmore, hprog, hnest⟩ :=
    statements_completes hst hdeep
  have hunfinished : ∀ u ∈ front', u.kind ≠ .finish := by
    obtain ⟨all, hall, hfinish⟩ := hprog.exists_finish
    rw [← List.append_assoc] at hall
    obtain ⟨rfl, -⟩ := List.append_inj' hall rfl
    intro u hu hkind
    exact hfinish (List.mem_append_left _ (hkind ▸ List.mem_map_of_mem hu))
  cases tail with
  | nil =>
    rw [List.append_nil] at heq
    exact absurd hunfinished (heq ▸ tokens_finished h).not_unfinished
  | cons t' behind' =>
    obtain rfl := front_eq_of_start h heq hoffset
    obtain ⟨filled, ts, hts, hkinds⟩ := exists_tokens_filled h hmore
    obtain ⟨es, -, hread⟩ := hprog.reads hnest hkinds []
    exact ⟨filled, _, parse_eq_ok hts hread⟩

end Text

/-- **Errors show at the first token that offends.** A text that has tokens but is no program is
refused at the start of one of them. Every text with the same tokens up to and including that one is
refused in the same way. And unless an expression nests too deeply, the text before that token, up
to the end of the last, goes on to a program. -/
theorem parse_offence {text : String} {ts : List Token} {e : ParseError}
    (hts : tokens text = .ok ts) (he : parse text = .error e) :
    ∃ front t behind, ts = front ++ t :: behind ∧ e.offset = t.span.start ∧
      e.offset ≤ text.length ∧
      (∀ other us, tokens other = .ok us → front ++ [t] <+: us → parse other = .error e) ∧
      (e.fault ≠ .nestedTooDeeply → ∃ more p,
        parse (String.ofList (text.toList.take (lastStop front)) ++ more) = .ok p) := by
  obtain ⟨front, t, behind, result, rfl, hfront, hdecides⟩ :=
    statements_settled (tokens_finished hts)
  have hparse := hdecides.parse_eq hts
  have hst := hdecides (.shift 0) [] t behind rfl
  rw [movedBefore_shift_zero] at hst
  cases result with
  | ok es => cases hparse.symm.trans he
  | error why =>
    cases hparse.symm.trans he
    refine ⟨front, t, behind, rfl, rfl, start_le_length hts, fun other us hus hprefix => ?_,
      fun hdeep => exists_parse_filled hts hst hdeep⟩
    obtain ⟨behind', rfl⟩ := hprefix
    rw [List.append_assoc, List.singleton_append] at hus
    exact hdecides.parse_eq hus

/-- A call that the end of its line leaves open: the complaint is about the line end, whatever
stands behind it, and what stands before it goes on to a program. -/
theorem parse_offence_open :
    let front : List Token :=
      [⟨.identifier "f", ⟨0, 1⟩⟩, ⟨.openParen, ⟨1, 2⟩⟩, ⟨.number "1", ⟨2, 3⟩⟩]
    let newline : Token := ⟨.newline, ⟨3, 4⟩⟩
    let e : ParseError := ⟨.expectedCloseParen, 3⟩
    tokens "f(1\n" = .ok (front ++ newline :: [⟨.finish, ⟨4, 4⟩⟩]) ∧ parse "f(1\n" = .error e ∧
      (∀ other us, tokens other = .ok us → front ++ [newline] <+: us → parse other = .error e) ∧
      ∃ more p, parse ("f(1" ++ more) = .ok p := by
  intro front newline e
  have htokens : tokens "f(1\n" = .ok (front ++ newline :: [⟨.finish, ⟨4, 4⟩⟩]) := by
    with_unfolding_all rfl
  have hparse : parse "f(1\n" = .error e := by with_unfolding_all rfl
  obtain ⟨front', t, behind, heq, hstart, -, hother, hmore⟩ := parse_offence htokens hparse
  obtain rfl : front = front' := front_eq_of_start htokens heq hstart
  obtain ⟨rfl, -⟩ := List.cons.inj (List.append_cancel_left heq)
  exact ⟨htokens, hparse, hother, hmore (by decide)⟩

end LanguageServer.Script
