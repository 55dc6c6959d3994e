import LanguageServer.Proofs.Script.Extent
import LanguageServer.Proofs.Script.Relocate
import LanguageServer.Proofs.Script.Spelling

/-! # The tokens of lines

No token but the line end and no gap reaches over the end of a line. So the lexer cuts the text
before a line end as if the text ended there, and what comes behind as if it began there, up to
places.

* `gap_before_newline`, `lexeme_before_newline`: one step of the lexer;
* `scan_before_newline`, `scan_move`: the two halves of a text;
* `tokens_append_newline`: whole texts. -/

namespace LanguageServer.Script

open Token (gap scan lexeme isSpacing isWordChar numberTail quotedText)

/-! ### One step of the lexer -/

theorem takeWhile_before {p : Char → Bool} {d : Char} (hd : p d = false) (cs bs : List Char) :
    (cs ++ d :: bs).takeWhile p = cs.takeWhile p := by
  induction cs with
  | nil => simp [hd]
  | cons c cs ih => by_cases hc : p c = true <;> simp [hc, ih]

theorem gap_before_newline (cs bs : List Char) : gap (cs ++ '\n' :: bs) = gap cs := by
  induction cs with
  | nil => exact gap_eq_zero (by decide) (by simp)
  | cons c cs ih =>
    rcases gap_cases c cs with ⟨hc, hgap⟩ | ⟨comment, rfl, rfl⟩ | ⟨hc, hcomment, hgap⟩
    · rw [hgap, List.cons_append, gap_spacing hc, ih]
    · rw [List.cons_append, List.cons_append, gap_comment, gap_comment,
        takeWhile_before (by decide)]
    · rw [hgap, List.cons_append]
      refine gap_eq_zero hc fun hslash => ?_
      cases cs with
      | nil => simp
      | cons d cs => exact hcomment hslash

theorem quotedText_before_newline (width : Nat) (read cs bs : List Char) :
    quotedText width read (cs ++ '\n' :: bs) = quotedText width read cs := by
  fun_induction quotedText width read cs with
  | case1 | case2 | case3 | case4 => rfl
  | case5 width read e cs c hc ih => simp [quotedText, hc, ih]
  | case6 width read e cs hc => simp [quotedText, hc]
  | case7 width read c cs hline hquote hlast hescape ih =>
    simp [quotedText, ne_backslash hlast hescape, ih]

theorem numberTail_before {d : Char} (hd : Text.isBlank d = true) (cs bs : List Char) :
    numberTail (cs ++ d :: bs) = numberTail cs := by
  have hdigit := isDigit_of_isBlank hd
  have hpoint : d ≠ '.' := by
    rintro rfl
    exact absurd hd (by decide)
  have hwhole := (List.takeWhile_prefix (l := cs) Char.isDigit).length_le
  unfold numberTail
  rw [takeWhile_before hdigit]
  simp only [List.drop_append_of_le_length hwhole]
  generalize cs.drop (cs.takeWhile Char.isDigit).length = rest
  cases rest with
  | nil => simp [hpoint]
  | cons c rest =>
    by_cases hc : c = '.'
    · subst hc
      cases rest with
      | nil => simp [hdigit]
      | cons e fraction => simp [takeWhile_before hdigit]
    · simp [hc]

theorem isPrefixOf_before {d : Char} {front : List Char} (hd : d ∉ front) (cs bs : List Char) :
    front.isPrefixOf (cs ++ d :: bs) = front.isPrefixOf cs := by
  induction front generalizing cs with
  | nil => simp
  | cons c front ih =>
    rw [List.mem_cons, not_or] at hd
    obtain ⟨hc, hfront⟩ := hd
    cases cs with
    | nil => simp [List.isPrefixOf, Ne.symm hc]
    | cons e cs => simp [List.isPrefixOf, ih hfront]

theorem readFrom?_before {d : Char} (hd : Text.isBlank d = true) (cs bs : List Char) :
    Operator.readFrom? (cs ++ d :: bs) = Operator.readFrom? cs := by
  have hsymbol (op : Operator) : d ∉ op.symbol.toList := by
    have hvisible : op.symbol.toList.all (fun c => !Text.isBlank c) = true := by cases op <;> rfl
    intro hmem
    have hd' := List.all_eq_true.mp hvisible d hmem
    rw [hd] at hd'
    cases hd'
  simp only [Operator.readFrom?, isPrefixOf_before (hsymbol _)]

/-- **The lexer does not look over the end of the line.** -/
theorem lexeme_before_newline (c : Char) (cs bs : List Char) :
    lexeme c (cs ++ '\n' :: bs) = lexeme c cs := by
  have hnumber := numberTail_le_length cs
  have hword := (List.takeWhile_prefix (l := cs) isWordChar).length_le
  have hblank : Text.isBlank '\n' = true := by decide
  have hop := readFrom?_before hblank (c :: cs) bs
  rw [List.cons_append] at hop
  simp only [lexeme, quotedText_before_newline, numberTail_before hblank,
    takeWhile_before (isWordChar_of_isBlank hblank),
    List.take_append_of_le_length hnumber, List.take_append_of_le_length hword, hop]

/-! ### Two halves of a text -/

theorem drop_gap_before_newline (cs bs : List Char) :
    (cs ++ '\n' :: bs).drop (gap (cs ++ '\n' :: bs)) = cs.drop (gap cs) ++ '\n' :: bs := by
  rw [gap_before_newline, List.drop_append_of_le_length (gap_le_length cs)]

/-- **The text before a line end** is cut as if it ended there, and then the line end. -/
theorem scan_before_newline (pos : Nat) (cs bs : List Char) (read : List Token) :
    (∃ e e', scan pos cs read = .error e ∧ scan pos (cs ++ '\n' :: bs) read = .error e') ∨
    ∃ ts span, scan pos cs read = .ok (ts ++ [⟨.finish, span⟩]) ∧
      scan pos (cs ++ '\n' :: bs) read =
        scan (pos + cs.length + 1) bs
          (⟨.newline, ⟨pos + cs.length, pos + cs.length + 1⟩⟩ :: ts.reverse) := by
  induction cs using scan_induction generalizing pos read with
  | finish cs hdrop =>
    have hlength : gap cs = cs.length :=
      Nat.le_antisymm (gap_le_length cs) (List.drop_eq_nil_iff.mp hdrop)
    have hbehind := drop_gap_before_newline cs bs
    rw [hdrop] at hbehind
    refine Or.inr ⟨read.reverse, _, scan_finish hdrop, ?_⟩
    rw [scan_step hbehind rfl, gap_before_newline, hlength, List.reverse_reverse]
    rfl
  | fault cs c after fault ahead hdrop hlexeme =>
    have hbehind := drop_gap_before_newline cs bs
    rw [hdrop, List.cons_append] at hbehind
    exact Or.inl ⟨_, _, scan_fault hdrop hlexeme,
      scan_fault hbehind ((lexeme_before_newline c after bs).trans hlexeme)⟩
  | step cs c after kind more hdrop hlexeme ih =>
    have hbehind := drop_gap_before_newline cs bs
    rw [hdrop, List.cons_append] at hbehind
    have hmore := lexeme_le_length hlexeme
    have hlength := congrArg List.length hdrop
    simp only [List.length_drop, List.length_cons] at hlength
    have hpos : pos + gap cs + 1 + more + (after.drop more).length = pos + cs.length := by
      rw [List.length_drop]
      omega
    rw [scan_step hdrop hlexeme,
      scan_step hbehind ((lexeme_before_newline c after bs).trans hlexeme), gap_before_newline,
      List.drop_append_of_le_length hmore, ← hpos]
    exact ih _ _

theorem scan_read (pos : Nat) (cs : List Char) (read : List Token) :
    scan pos cs read = (scan pos cs []).map (read.reverse ++ ·) := by
  induction cs using scan_induction generalizing pos read with
  | finish cs hdrop => rw [scan_finish hdrop, scan_finish hdrop]; rfl
  | fault cs c after fault ahead hdrop hlexeme =>
    rw [scan_fault hdrop hlexeme, scan_fault hdrop hlexeme]
    rfl
  | step cs c after kind more hdrop hlexeme ih =>
    rw [scan_step hdrop hlexeme, scan_step hdrop hlexeme, ih _ (_ :: read), ih _ [_]]
    cases scan (pos + gap cs + 1 + more) (after.drop more) [] <;> simp [Except.map]

/-- **The text behind a line end** is cut as if it began there, up to places. -/
theorem scan_move (k pos : Nat) (cs : List Char) (read : List Token) :
    (∃ e e', scan pos cs read = .error e ∧
      scan (pos + k) cs (read.map (Token.move (.shift k))) = .error e') ∨
    ∃ ts, scan pos cs read = .ok ts ∧
      scan (pos + k) cs (read.map (Token.move (.shift k))) =
        .ok (ts.map (Token.move (.shift k))) := by
  induction cs using scan_induction generalizing pos read with
  | finish cs hdrop =>
    refine Or.inr ⟨_, scan_finish hdrop, ?_⟩
    rw [scan_finish hdrop, Nat.add_right_comm]
    simp [Token.move, Span.move, Relocation.shift]
  | fault cs c after fault ahead hdrop hlexeme =>
    exact Or.inl ⟨_, _, scan_fault hdrop hlexeme, scan_fault hdrop hlexeme⟩
  | step cs c after kind more hdrop hlexeme ih =>
    have hstart : pos + k + gap cs = pos + gap cs + k := by omega
    have hstop : pos + gap cs + k + 1 + more = pos + gap cs + 1 + more + k := by omega
    rw [scan_step hdrop hlexeme, scan_step hdrop hlexeme, hstart, hstop]
    exact ih _ _

/-- **The tokens of two texts with a line end between them** are those of the first, the line end,
and those of the second, moved behind it; if a text has none, neither have both together. -/
theorem tokens_append_newline (a b : String) :
    (∃ ta span tb, tokens a = .ok (ta ++ [⟨.finish, span⟩]) ∧ tokens b = .ok tb ∧
      tokens (a ++ "\n" ++ b) = .ok (ta ++ ⟨.newline, ⟨a.length, a.length + 1⟩⟩ ::
        tb.map (Token.move (.shift (a.length + 1))))) ∨
    ((∃ e, tokens a = .error e) ∨ ∃ e, tokens b = .error e) ∧
      ∃ e, tokens (a ++ "\n" ++ b) = .error e := by
  have htext : (a ++ "\n" ++ b).toList = a.toList ++ '\n' :: b.toList := by simp
  unfold tokens
  rw [htext]
  rcases scan_before_newline 0 a.toList b.toList [] with
    ⟨e, e', ha, hboth⟩ | ⟨ta, span, ha, hboth⟩
  · exact Or.inr ⟨Or.inl ⟨e, ha⟩, e', hboth⟩
  · have hmove := scan_move (a.length + 1) 0 b.toList []
    rw [String.length_toList, Nat.zero_add, scan_read (a.length + 1)] at hboth
    rw [Nat.zero_add, List.map_nil] at hmove
    rcases hmove with ⟨e, e', hb, hmoved⟩ | ⟨tb, hb, hmoved⟩ <;> rw [hmoved] at hboth
    · exact Or.inr ⟨Or.inr ⟨e, hb⟩, e', hboth⟩
    · refine Or.inl ⟨ta, span, tb, ha, hb, ?_⟩
      rw [hboth]
      simp [Except.map]

end LanguageServer.Script
