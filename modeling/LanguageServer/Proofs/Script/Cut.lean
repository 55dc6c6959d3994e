import LanguageServer.Proofs.Script.LineTokens
import LanguageServer.Proofs.Script.Tiling

/-! # Cutting a text behind a token

Where a token ends, or anywhere behind it, a text can be cut off and go on with white space and
anything else: the lexer finds the same tokens up to there and starts anew with what comes behind.
`CutAt` says so of the state of the lexer behind some of the tokens.

* `gap_cut`, `lexeme_cut`: one step of the lexer;
* `CutAt.step`: one more token;
* `tokens_cut`: the state behind any of the tokens of a text. -/

namespace LanguageServer.Script

open Token (gap scan lexeme isSpacing isWordChar numberTail quotedText)

/-! ### One step of the lexer -/

section Take
variable {cs : List Char} {n : Nat}

theorem takeWhile_take {p : Char → Bool} (hn : (cs.takeWhile p).length ≤ n) :
    (cs.take n).takeWhile p = cs.takeWhile p := by
  rw [← List.take_takeWhile, List.take_of_length_le hn]

theorem numberTail_whole
    (h : ∀ d fraction, cs.drop (cs.takeWhile Char.isDigit).length = '.' :: d :: fraction →
      d.isDigit = false) :
    numberTail cs = (cs.takeWhile Char.isDigit).length := by
  unfold numberTail
  simp only
  split
  · next d fraction hdrop => rw [if_neg (by rw [h d fraction hdrop]; exact Bool.false_ne_true)]
  · rfl

theorem numberTail_fraction {d : Char} {fraction : List Char}
    (hdrop : cs.drop (cs.takeWhile Char.isDigit).length = '.' :: d :: fraction)
    (hd : d.isDigit = true) :
    numberTail cs =
      (cs.takeWhile Char.isDigit).length + 2 + (fraction.takeWhile Char.isDigit).length := by
  simp [numberTail, hdrop, hd]

theorem numberTail_take (hn : numberTail cs ≤ n) : numberTail (cs.take n) = numberTail cs := by
  by_cases hfraction : ∃ d fraction,
      cs.drop (cs.takeWhile Char.isDigit).length = '.' :: d :: fraction ∧ d.isDigit = true
  · obtain ⟨d, fraction, hdrop, hd⟩ := hfraction
    have htail := numberTail_fraction hdrop hd
    have hwhole : (cs.take n).takeWhile Char.isDigit = cs.takeWhile Char.isDigit :=
      takeWhile_take (by omega)
    obtain ⟨k, hk⟩ : ∃ k, n - (cs.takeWhile Char.isDigit).length = k + 2 :=
      ⟨n - (cs.takeWhile Char.isDigit).length - 2, by omega⟩
    have hdrop' : (cs.take n).drop ((cs.take n).takeWhile Char.isDigit).length =
        '.' :: d :: fraction.take k := by
      rw [hwhole, List.drop_take, hdrop, hk, List.take_succ_cons, List.take_succ_cons]
    rw [numberTail_fraction hdrop' hd, hwhole, takeWhile_take (by omega), htail]
  · have hnone : ∀ d fraction, cs.drop (cs.takeWhile Char.isDigit).length = '.' :: d :: fraction →
        d.isDigit = false := fun d fraction hdrop =>
      Bool.eq_false_iff.mpr fun hd => hfraction ⟨d, fraction, hdrop, hd⟩
    have hwhole : (cs.take n).takeWhile Char.isDigit = cs.takeWhile Char.isDigit :=
      takeWhile_take (by rwa [← numberTail_whole hnone])
    rw [numberTail_whole hnone, ← hwhole]
    refine numberTail_whole fun d fraction hdrop => ?_
    rw [hwhole, List.drop_take] at hdrop
    obtain ⟨behind, hbehind⟩ := List.take_prefix (n - (cs.takeWhile Char.isDigit).length)
      (cs.drop (cs.takeWhile Char.isDigit).length)
    rw [hdrop] at hbehind
    exact hnone d (fraction ++ behind) hbehind.symm

theorem readFrom?_take {c : Char} {op : Operator} (h : Operator.readFrom? (c :: cs) = some op)
    (hn : op.symbol.length - 1 ≤ n) : Operator.readFrom? (c :: cs.take n) = some op := by
  obtain ⟨hop, before, behind, hall, hbefore⟩ := List.find?_eq_some_iff_append.mp h
  rw [← List.take_succ_cons]
  refine List.find?_eq_some_iff_append.mpr ⟨?_, before, behind, hall, fun other hother => ?_⟩
  · rw [List.isPrefixOf_iff_prefix] at hop ⊢
    refine List.prefix_take_iff.mpr ⟨hop, ?_⟩
    rw [String.length_toList]
    omega
  · have hfails := hbefore other hother
    simp only [Bool.not_eq_true', ← Bool.not_eq_true, List.isPrefixOf_iff_prefix] at hfails ⊢
    exact fun hfront => hfails (hfront.trans (List.take_prefix _ _))

end Take

theorem Unescapes.quotedText_eq {inside contents : List Char} (h : Unescapes inside contents)
    (width : Nat) (read rest : List Char) :
    quotedText width read (inside ++ '"' :: rest) =
      .ok (String.ofList (read.reverse ++ contents), width + inside.length + 1) := by
  induction h generalizing width read with
  | nil => simp [quotedText]
  | @escape e c cs contents he _ ih =>
    simp [quotedText, unescape?_eq_some.mpr he, ih]
    omega
  | @plain c cs contents hback hquote hline _ ih =>
    simp [quotedText, hback, ih]
    omega

theorem quotedText_take {cs : List Char} {contents : String} {more n : Nat}
    (h : quotedText 0 [] cs = .ok (contents, more)) (hn : more ≤ n) (rest : List Char) :
    quotedText 0 [] (cs.take n ++ rest) = .ok (contents, more) := by
  obtain ⟨inside, new, behind, rfl, hinside, rfl, rfl⟩ := quotedText_ok h
  obtain ⟨k, rfl⟩ : ∃ k, n = inside.length + (k + 1) := ⟨n - inside.length - 1, by omega⟩
  rw [List.take_length_add_append, List.take_succ_cons, List.append_assoc, List.cons_append]
  exact hinside.quotedText_eq 0 [] _

/-- **A token does not depend on what stands behind it,** where the text goes on with white
space. -/
theorem lexeme_cut {c d : Char} {cs bs : List Char} {kind : Token.Kind} {more n : Nat}
    (h : lexeme c cs = .ok (kind, more)) (hn : more ≤ n) (hd : Text.isBlank d = true) :
    lexeme c (cs.take n ++ d :: bs) = .ok (kind, more) := by
  have hlength := lexeme_le_length h
  have htake : (cs.take n ++ d :: bs).take more = cs.take more := by
    rw [List.take_append_of_le_length (by rw [List.length_take]; omega), List.take_take,
      Nat.min_eq_left hn]
  unfold lexeme at h ⊢
  split_ifs at h ⊢
  · exact h
  · exact h
  · exact h
  · exact h
  · exact h
  · cases hquoted : quotedText 0 [] cs with
    | error e => rw [hquoted] at h; cases h
    | ok token =>
      obtain ⟨contents, more⟩ := token
      rw [hquoted] at h
      cases h
      rw [quotedText_take hquoted hn]
      rfl
  · cases h
    simp only [numberTail_before hd, numberTail_take hn, htake]
  · cases h
    simp only [takeWhile_before (isWordChar_of_isBlank hd), takeWhile_take hn, htake]
  · split at h
    · next op hop =>
      cases h
      rw [← List.cons_append, readFrom?_before hd, readFrom?_take hop hn]
    · cases h

/-- A gap does not depend on what stands behind the character that ends it, unless a comment begins
with both. -/
theorem gap_cut {cs after xs : List Char} {c : Char} (hdrop : cs.drop (gap cs) = c :: after)
    (hcomment : c = '/' → xs.head? = some '/' → after.head? = some '/') :
    gap (cs.take (gap cs) ++ c :: xs) = gap cs := by
  induction cs with
  | nil => simp at hdrop
  | cons b cs ih =>
    rcases gap_cases b cs with ⟨hb, hgap⟩ | ⟨comment, rfl, rfl⟩ | ⟨hb, hslash, hgap⟩
    · rw [hgap, List.drop_succ_cons] at hdrop
      rw [hgap, List.take_succ_cons, List.cons_append, gap_spacing hb, ih hdrop]
    · rw [gap_comment, List.drop_succ_cons, List.drop_succ_cons] at hdrop
      have hline : Token.inLine c = false :=
        head?_drop_takeWhile Token.inLine comment c (by rw [hdrop]; rfl)
      rw [gap_comment, List.take_succ_cons, List.take_succ_cons, take_length_takeWhile,
        List.cons_append, List.cons_append, gap_comment, takeWhile_before hline,
        List.takeWhile_idem]
    · rw [hgap] at hdrop ⊢
      obtain ⟨rfl, rfl⟩ := List.cons.inj hdrop
      exact gap_eq_zero hb fun h hxs => hslash h (hcomment h hxs)

theorem head?_take_before {p d : Char} (hd : d ≠ p) {cs bs : List Char} {n : Nat}
    (h : (cs.take n ++ d :: bs).head? = some p) : cs.head? = some p := by
  cases cs with
  | nil => simp [hd] at h
  | cons c cs =>
    cases n with
    | zero => simp [hd] at h
    | succ n => exact h

/-! ### The lexer starts anew -/

section Scan
variable {cs rest : List Char} {read : List Token} {pos : Nat}

/-- **The lexer starts anew at `pos`,** behind the tokens `read`, last first, with the rest of the
characters, and with what is left of them if they are cut off there or anywhere behind and go on
with white space. -/
structure CutAt (cs : List Char) (pos : Nat) (rest : List Char) (read : List Token) : Prop
    extends ScannedTo cs pos rest read where
  whole : scan 0 cs [] = scan pos rest read
  cut : ∀ n d bs, Text.isBlank d = true →
    scan 0 (cs.take (pos + n) ++ d :: bs) [] = scan pos (rest.take n ++ d :: bs) read

theorem cutAt_start (cs : List Char) : CutAt cs 0 cs [] where
  toScannedTo := scannedTo_start cs
  whole := rfl
  cut n d bs _ := by rw [Nat.zero_add]

theorem CutAt.step (h : CutAt cs pos rest read) {c : Char} {after : List Char} {kind : Token.Kind}
    {more : Nat} (hdrop : rest.drop (gap rest) = c :: after)
    (hlexeme : lexeme c after = .ok (kind, more)) :
    CutAt cs (pos + gap rest + 1 + more) (after.drop more)
      (⟨kind, ⟨pos + gap rest, pos + gap rest + 1 + more⟩⟩ :: read) where
  toScannedTo := h.toScannedTo.step hdrop hlexeme
  whole := h.whole.trans (scan_step hdrop hlexeme)
  cut n d bs hd := by
    have hpos : pos + gap rest + 1 + more + n = pos + (gap rest + (more + n + 1)) := by omega
    have htake : rest.take (gap rest + (more + n + 1)) ++ d :: bs =
        rest.take (gap rest) ++ c :: (after.take (more + n) ++ d :: bs) := by
      rw [List.take_add, hdrop, List.take_succ_cons, List.append_assoc, List.cons_append]
    have hslash : d ≠ '/' := by
      rintro rfl
      exact absurd hd (by decide)
    have hgap : gap (rest.take (gap rest) ++ c :: (after.take (more + n) ++ d :: bs)) = gap rest :=
      gap_cut hdrop fun _ => head?_take_before hslash
    have hlength := lexeme_le_length hlexeme
    have hdrop' : (rest.take (gap rest) ++ c :: (after.take (more + n) ++ d :: bs)).drop
        (gap (rest.take (gap rest) ++ c :: (after.take (more + n) ++ d :: bs))) =
          c :: (after.take (more + n) ++ d :: bs) := by
      rw [hgap, List.drop_left' (List.length_take_of_le (gap_le_length rest))]
    rw [hpos, h.cut _ d bs hd, htake,
      scan_step hdrop' (lexeme_cut hlexeme (Nat.le_add_right more n) hd), hgap,
      List.drop_append_of_le_length (by rw [List.length_take]; omega), List.drop_take,
      Nat.add_sub_cancel_left]

theorem scan_prefix {ts : List Token} (h : scan pos cs read = .ok ts) :
    ∃ found, ts = read.reverse ++ found := by
  rw [scan_read] at h
  cases hscan : scan pos cs [] with
  | error e => rw [hscan] at h; cases h
  | ok found => rw [hscan] at h; cases h; exact ⟨found, rfl⟩

theorem CutAt.exists_behind (h : CutAt cs pos rest read) {more after : List Token} {t : Token}
    (hscan : scan pos rest read = .ok (read.reverse ++ more ++ t :: after)) :
    ∃ pos rest, CutAt cs pos rest (more.reverse ++ read) := by
  induction more generalizing pos rest read with
  | nil => exact ⟨pos, rest, h⟩
  | cons u more ih =>
    cases hdrop : rest.drop (gap rest) with
    | nil =>
      rw [scan_finish hdrop] at hscan
      have hlength := congrArg List.length (Except.ok.inj hscan)
      simp only [List.length_append, List.length_cons, List.length_nil] at hlength
      omega
    | cons c behind =>
      cases hlexeme : lexeme c behind with
      | error e => rw [scan_fault hdrop hlexeme] at hscan; cases hscan
      | ok token =>
        obtain ⟨kind, width⟩ := token
        rw [scan_step hdrop hlexeme] at hscan
        obtain ⟨found, hfound⟩ := scan_prefix hscan
        rw [List.reverse_cons, List.append_assoc, List.append_assoc] at hfound
        obtain ⟨rfl, -⟩ := List.cons.inj (List.append_cancel_left hfound)
        rw [List.reverse_cons, List.append_assoc]
        refine ih (h.step hdrop hlexeme) (hscan.trans ?_)
        simp

end Scan

/-- **The lexer starts anew behind each token** of a text. -/
theorem tokens_cut {text : String} {before after : List Token} {t : Token}
    (h : tokens text = .ok (before ++ t :: after)) :
    CutAt text.toList (lastStop before) (text.toList.drop (lastStop before)) before.reverse := by
  obtain ⟨pos, rest, hcut⟩ := (cutAt_start text.toList).exists_behind h
  rw [List.append_nil] at hcut
  have hpos := hcut.stop
  have hrest := hcut.drop
  rw [List.reverse_reverse] at hpos
  rwa [hpos, hrest]

end LanguageServer.Script
