import LanguageServer.Proofs.Json.Grammar
import Mathlib.Data.List.TakeWhile

/-! # Strings and numbers are read by the grammar

Where a reader succeeds on a string, a word or a number, the grammar has one in that place, of that
value, with the same bytes behind it. The scans that pass over a string or a number keep to the same
grammar; of a string they ask no text.

* `stringText_sound`, `skipString_sound`: strings;
* `number_sound`, `skipNumber_sound`: numbers;
* `scalar?_sound`, `skipScalar_sound`: all values without parts. -/

namespace LanguageServer.Json

open LanguageServer.Text

/-! ### White space -/

theorem next_of_skipSpace {b : UInt8} {bs rest : List UInt8} (h : skipSpace bs = b :: rest) :
    Next b bs rest := by
  refine ⟨bs.takeWhile isSpace, fun c hc => List.mem_takeWhile_imp hc, ?_⟩
  rw [← h, skipSpace, List.takeWhile_append_dropWhile]

theorem blank_of_skipSpace {bs : List UInt8} (h : skipSpace bs = []) :
    ∀ b ∈ bs, isSpace b = true := List.dropWhile_eq_nil_iff.mp h

theorem Value.of_skipSpace {tree : Tree} {bs rest : List UInt8} (h : Value tree bs rest)
    {start : List UInt8} (hspace : skipSpace start = bs) : Value tree start rest := by
  induction start with
  | nil => rwa [← hspace] at h
  | cons b start ih =>
    by_cases hb : isSpace b = true
    · rw [skipSpace, List.dropWhile_cons_of_pos hb] at hspace
      exact .blank hb (ih hspace)
    · rw [skipSpace, List.dropWhile_cons_of_neg hb] at hspace
      rwa [hspace]

/-! ### Strings -/

section Strings

variable {bound : Nat} {bs : List UInt8}

theorem hexEscape_eq_ok {h : bs.length ≤ bound} {t : Taken UInt8 Nat bound}
    (hread : hexEscape bs h = .ok t) :
    ∃ a b c d i j k l, hexValue? a = some i ∧ hexValue? b = some j ∧ hexValue? c = some k ∧
      hexValue? d = some l ∧ bs = a :: b :: c :: d :: t.rest ∧
      t.value = ((i * 16 + j) * 16 + k) * 16 + l := by
  unfold hexEscape at hread
  split at hread
  · next a b c d rest _ =>
    split at hread
    · next i j k l ha hb hc hd =>
      cases hread
      exact ⟨a, b, c, d, i, j, k, l, ha, hb, hc, hd, rfl, rfl⟩
    · cases hread
  · cases hread

theorem Chars.hexEscape {h : bs.length ≤ bound} {t : Taken UInt8 Nat bound}
    (hread : Json.hexEscape bs h = .ok t) {ps : List Piece} {rest : List UInt8}
    (hchars : Chars ps t.rest rest) :
    Chars (.unit t.value :: ps) (byte '\\' :: byte 'u' :: bs) rest := by
  obtain ⟨a, b, c, d, i, j, k, l, ha, hb, hc, hd, rfl, hvalue⟩ := hexEscape_eq_ok hread
  rw [hvalue]
  exact .numbered ha hb hc hd hchars

/-- The second half of a character is an escape of the same kind. -/
theorem trailingEscape_sound {leading : Nat} {h : bs.length ≤ bound} {t : Taken UInt8 Char bound}
    (hread : trailingEscape leading bs h = .ok t) {ps : List Piece} {rest : List UInt8}
    (hchars : Chars ps t.rest rest) :
    ∃ n, isTrailing n = true ∧ t.value = pairChar leading n ∧ Chars (.unit n :: ps) bs rest := by
  unfold trailingEscape at hread
  split at hread
  · cases hread
  · split at hread
    · next hbackslash =>
      split at hread
      · cases hread
      · split at hread
        · next hu =>
          split at hread
          · cases hread
          · next low hlow =>
            split at hread
            · next htrailing =>
              obtain rfl := Except.ok.inj hread
              subst hbackslash hu
              exact ⟨low.value, htrailing, by simp only [Taken.map], hchars.hexEscape hlow⟩
            · cases hread
        · cases hread
    · cases hread

theorem numberedChar_sound {h : bs.length ≤ bound} {t : Taken UInt8 Char bound}
    (hread : numberedChar bs h = .ok t) {ps : List Piece} {rest out : List UInt8}
    (hchars : Chars ps t.rest rest) (hout : resolve? ps = some out) :
    ∃ ps', Chars ps' (byte '\\' :: byte 'u' :: bs) rest ∧
      resolve? ps' = some (String.utf8EncodeChar t.value ++ out) := by
  unfold numberedChar at hread
  split at hread
  · cases hread
  · next n hn =>
    split at hread
    · cases hread
    · next htrailing =>
      split at hread
      · next hleading =>
        obtain ⟨m, hm, hvalue, hchars⟩ := trailingEscape_sound hread hchars
        refine ⟨_, hchars.hexEscape hn, ?_⟩
        rw [resolve?, if_neg htrailing, if_pos hleading]
        simp only [if_pos hm, hout, hvalue]
        rfl
      · next hleading =>
        cases hread
        refine ⟨_, Chars.hexEscape hn hchars, ?_⟩
        rw [resolve?.eq_def]
        simp only [if_neg htrailing, if_neg hleading, hout]
        rfl

theorem escaped_sound {h : bs.length ≤ bound} {t : Taken UInt8 (List UInt8) bound}
    (hread : escaped bs h = .ok t) {ps : List Piece} {rest out : List UInt8}
    (hchars : Chars ps t.rest rest) (hout : resolve? ps = some out) :
    ∃ ps', Chars ps' (byte '\\' :: bs) rest ∧ resolve? ps' = some (t.value ++ out) := by
  unfold escaped at hread
  split at hread
  · cases hread
  · next b after _ =>
    split at hread
    · next hu =>
      cases hnumbered : numberedChar after _ with
      | error e => rw [hnumbered] at hread; cases hread
      | ok c =>
        rw [hnumbered] at hread
        cases hread
        subst hu
        exact numberedChar_sound hnumbered hchars hout
    · split at hread
      · next e he =>
        cases hread
        exact ⟨_, .letter he hchars, by rw [resolve?, hout]; rfl⟩
      · cases hread

theorem stringBytes_sound {read bs : List UInt8} {h : bs.length ≤ bound}
    {t : Taken UInt8 (List UInt8) bound} (hread : stringBytes read bs h = .ok t) :
    ∃ ps out, Chars ps bs t.rest ∧ resolve? ps = some out ∧ t.value = read.reverse ++ out := by
  match bs with
  | [] => rw [stringBytes] at hread; cases hread
  | b :: after =>
    rw [stringBytes] at hread
    split at hread
    · next hquote =>
      cases hread
      subst hquote
      exact ⟨[], [], .close, rfl, (List.append_nil _).symm⟩
    · next hquote =>
      split at hread
      · next hbackslash =>
        split at hread
        · cases hread
        · next e he =>
          have hshorter : e.rest.length ≤ after.length := e.le_bound
          obtain ⟨ps, out, hchars, hout, hvalue⟩ := stringBytes_sound hread
          obtain ⟨ps', hchars', hout'⟩ := escaped_sound he hchars hout
          subst hbackslash
          refine ⟨ps', _, hchars', hout', ?_⟩
          rw [hvalue, List.reverse_append, List.reverse_reverse, List.append_assoc]
      · next hbackslash =>
        split at hread
        · cases hread
        · next hcontrol =>
          obtain ⟨ps, out, hchars, hout, hvalue⟩ := stringBytes_sound hread
          refine ⟨_, b :: out, .plain hquote hbackslash hcontrol hchars, by rw [resolve?, hout]; rfl, ?_⟩
          rw [hvalue, List.reverse_cons, List.append_assoc, List.singleton_append]
termination_by bs.length

/-- **A string that is read** is one of the grammar, of the text that it gives. -/
theorem stringText_sound {h : bs.length ≤ bound} {t : Taken UInt8 String bound}
    (hread : stringText bs h = .ok t) :
    ∃ ps, Chars ps bs t.rest ∧ textOf ps = some t.value := by
  unfold stringText at hread
  split at hread
  · cases hread
  · next raw hraw =>
    obtain ⟨ps, out, hchars, hout, hvalue⟩ := stringBytes_sound hraw
    split at hread
    · next s hs =>
      cases hread
      refine ⟨ps, hchars, ?_⟩
      rw [textOf, hout]
      rw [hvalue] at hs
      exact hs
    · cases hread

theorem skipEscape_sound {h : bs.length ≤ bound} {t : Taken UInt8 Unit bound}
    (hskip : skipEscape bs h = .ok t) {ps : List Piece} {rest : List UInt8}
    (hchars : Chars ps t.rest rest) : ∃ ps', Chars ps' (byte '\\' :: bs) rest := by
  unfold skipEscape at hskip
  split at hskip
  · cases hskip
  · next b after _ =>
    split at hskip
    · next hu =>
      simp only at hskip
      cases hhex : hexEscape after _ with
      | error e => rw [hhex] at hskip; cases hskip
      | ok n =>
        rw [hhex] at hskip
        cases hskip
        subst hu
        exact ⟨_, Chars.hexEscape hhex hchars⟩
    · split at hskip
      · next hletter =>
        cases hskip
        obtain ⟨e, he⟩ := Option.isSome_iff_exists.mp hletter
        exact ⟨_, .letter he hchars⟩
      · cases hskip

/-- **A string that is passed over** is one of the grammar, whether or not it has a text. -/
theorem skipString_sound {bs : List UInt8} {h : bs.length ≤ bound} {t : Taken UInt8 Unit bound}
    (hskip : skipString bs h = .ok t) : ∃ ps, Chars ps bs t.rest := by
  match bs with
  | [] => rw [skipString] at hskip; cases hskip
  | b :: after =>
    rw [skipString] at hskip
    split at hskip
    · next hquote =>
      cases hskip
      subst hquote
      exact ⟨[], .close⟩
    · next hquote =>
      split at hskip
      · next hbackslash =>
        split at hskip
        · cases hskip
        · next e he =>
          have hshorter : e.rest.length ≤ after.length := e.le_bound
          obtain ⟨ps, hchars⟩ := skipString_sound hskip
          subst hbackslash
          exact skipEscape_sound he hchars
      · next hbackslash =>
        split at hskip
        · cases hskip
        · next hcontrol =>
          obtain ⟨ps, hchars⟩ := skipString_sound hskip
          exact ⟨_, .plain hquote hbackslash hcontrol hchars⟩
termination_by bs.length

end Strings

/-! ### Numbers -/

section Numbers

variable {bound : Nat} {bs : List UInt8}

theorem AllDigits.cons {b : UInt8} {ds : List UInt8} (hb : isDigit b = true) (h : AllDigits ds) :
    AllDigits (b :: ds) := List.forall_mem_cons.mpr ⟨hb, h⟩

theorem AllDigits.append {ds es : List UInt8} (hd : AllDigits ds) (he : AllDigits es) :
    AllDigits (ds ++ es) := List.forall_mem_append.mpr ⟨hd, he⟩

theorem digits_sound (limit value count : Nat) (bs : List UInt8) (h : bs.length ≤ bound) :
    ∃ ds, AllDigits ds ∧ bs = ds ++ (digits limit value count bs h).rest ∧
      (digits limit value count bs h).value = (ofDigits value ds, count + ds.length) := by
  induction bs generalizing value count with
  | nil => exact ⟨[], List.forall_mem_nil _, rfl, rfl⟩
  | cons b bs ih =>
    rw [digits]
    split
    · next hdigit =>
      obtain ⟨hb, -⟩ := Bool.and_eq_true_iff.mp hdigit
      obtain ⟨ds, hds, hbs, hvalue⟩ := ih (value * 10 + digitValue b) (count + 1) (tail_le h)
      refine ⟨b :: ds, .cons hb hds, ?_, ?_⟩
      · rw [List.cons_append, ← hbs]
      · rw [hvalue, ofDigits, ofDigits, List.foldl_cons, List.length_cons]
        congr 1
        omega
    · exact ⟨[], List.forall_mem_nil _, rfl, rfl⟩

theorem dropDigits_sound (bs : List UInt8) (h : bs.length ≤ bound) :
    ∃ ds, AllDigits ds ∧ bs = ds ++ (dropDigits bs h).rest ∧
      (dropDigits bs h).value = ds.length :=
  ⟨bs.takeWhile isDigit, fun _ hd => List.mem_takeWhile_imp hd,
    List.takeWhile_append_dropWhile.symm, rfl⟩

theorem dropDigits_ne_nil {bs : List UInt8} {h : bs.length ≤ bound}
    (hdigit : digitNext bs = true) :
    ∃ ds, ds ≠ [] ∧ AllDigits ds ∧ bs = ds ++ (dropDigits bs h).rest := by
  cases bs with
  | nil => cases hdigit
  | cons b bs =>
    have hb : isDigit b = true := hdigit
    obtain ⟨ds, hds, hbs, -⟩ := dropDigits_sound bs (length_le_self bs)
    have hrest : (dropDigits (b :: bs) h).rest = (dropDigits bs (length_le_self bs)).rest :=
      List.dropWhile_cons_of_pos hb
    refine ⟨b :: ds, List.cons_ne_nil b ds, .cons hb hds, ?_⟩
    rw [hrest, List.cons_append, ← hbs]

/-- The value is floating point. -/
def IsFloat (v : Json) : Prop := ∃ x, v = .float x

theorem ofParts_sound {negative : Bool} {significand : Nat} {exponent : Int}
    {h : bs.length ≤ bound} {t : Taken UInt8 Json bound}
    (hread : ofParts negative significand exponent bs h = .ok t) :
    bs = t.rest ∧ IsFloat t.value := by
  unfold ofParts at hread
  split at hread
  · cases hread
    exact ⟨rfl, _, rfl⟩
  · cases hread

theorem exponentDigits_sound {negative down : Bool} {significand : Nat} {start : Int}
    {h : bs.length ≤ bound} {t : Taken UInt8 Json bound}
    (hread : exponentDigits negative down significand start bs h = .ok t) :
    (∃ ds, ds ≠ [] ∧ AllDigits ds ∧ bs = ds ++ t.rest) ∧ IsFloat t.value := by
  unfold exponentDigits at hread
  split at hread
  · cases hread
  · next b rest hrest =>
    split at hread
    · next hb =>
      obtain ⟨ds, hds, hrest', -⟩ :=
        digits_sound maxExponent (digitValue b) 0 rest (tail_le hrest)
      simp only at hread
      split at hread
      · next hnext =>
        split at hread
        · cases hread
        · cases hread
          obtain ⟨es, -, hes, hmore⟩ := dropDigits_ne_nil
            (h := (digits maxExponent (digitValue b) 0 rest (tail_le hrest)).le_bound) hnext
          refine ⟨⟨b :: (ds ++ es), List.cons_ne_nil b _, .cons hb (hds.append hes), ?_⟩, _, rfl⟩
          rw [List.cons_append, List.append_assoc, ← hmore, ← hrest']
      · obtain ⟨hsame, hfloat⟩ := ofParts_sound hread
        refine ⟨⟨b :: ds, List.cons_ne_nil b ds, .cons hb hds, ?_⟩, hfloat⟩
        rw [List.cons_append, ← hsame, ← hrest']
    · cases hread

theorem Exponent.of_digits {e : UInt8} (he : e = byte 'e' ∨ e = byte 'E') {sign rest : List UInt8}
    (hsign : sign = [] ∨ sign = [byte '+'] ∨ sign = [byte '-'])
    (h : ∃ ds, ds ≠ [] ∧ AllDigits ds ∧ bs = ds ++ rest) : Exponent (e :: (sign ++ bs)) rest := by
  obtain ⟨ds, hne, hds, rfl⟩ := h
  exact .mk he hsign hne hds

theorem exponentPart_sound {negative : Bool} {significand : Nat} {start : Int}
    {h : bs.length ≤ bound} {t : Taken UInt8 Json bound}
    (hread : exponentPart negative significand start bs h = .ok t) {e : UInt8}
    (he : e = byte 'e' ∨ e = byte 'E') : Exponent (e :: bs) t.rest ∧ IsFloat t.value := by
  unfold exponentPart at hread
  split at hread
  · split at hread
    · next hplus =>
      obtain ⟨hdigits, hfloat⟩ := exponentDigits_sound hread
      subst hplus
      exact ⟨.of_digits he (Or.inr (Or.inl rfl)) hdigits, hfloat⟩
    · split at hread
      · next hminus =>
        obtain ⟨hdigits, hfloat⟩ := exponentDigits_sound hread
        subst hminus
        exact ⟨.of_digits he (Or.inr (Or.inr rfl)) hdigits, hfloat⟩
      · obtain ⟨hdigits, hfloat⟩ := exponentDigits_sound hread
        exact ⟨.of_digits he (Or.inl rfl) hdigits, hfloat⟩
  · obtain ⟨hdigits, hfloat⟩ := exponentDigits_sound hread
    exact ⟨.of_digits he (Or.inl rfl) hdigits, hfloat⟩

theorem exponentNext?_eq_some {h : bs.length ≤ bound} {t : Taken UInt8 Unit bound}
    (hnext : exponentNext? bs h = some t) :
    ∃ e, (e = byte 'e' ∨ e = byte 'E') ∧ bs = e :: t.rest := by
  unfold exponentNext? at hnext
  split at hnext
  · next b rest _ =>
    split at hnext
    · next hletter =>
      cases hnext
      simp only [Bool.or_eq_true, decide_eq_true_eq] at hletter
      exact ⟨b, hletter, rfl⟩
    · cases hnext
  · cases hnext

theorem floatEnd_sound {negative : Bool} {significand : Nat} {exponent : Int}
    {h : bs.length ≤ bound} {t : Taken UInt8 Json bound}
    (hread : floatEnd negative significand exponent bs h = .ok t) :
    (bs = t.rest ∨ Exponent bs t.rest) ∧ IsFloat t.value := by
  unfold floatEnd at hread
  split at hread
  · next after hnext =>
    obtain ⟨e, he, rfl⟩ := exponentNext?_eq_some hnext
    obtain ⟨hexponent, hfloat⟩ := exponentPart_sound hread he
    exact ⟨Or.inr hexponent, hfloat⟩
  · obtain ⟨hsame, hfloat⟩ := ofParts_sound hread
    exact ⟨Or.inl hsame, hfloat⟩

theorem Scaling.of_digits {ds middle rest : List UInt8} (hne : ds ≠ []) (hds : AllDigits ds)
    (h : middle = rest ∨ Exponent middle rest) : Scaling (byte '.' :: (ds ++ middle)) rest := by
  rcases h with rfl | h
  · exact .point hne hds
  · exact .both hne hds h

theorem fractionPart_sound {negative : Bool} {significand : Nat} {exponent : Int}
    {h : bs.length ≤ bound} {t : Taken UInt8 Json bound}
    (hread : fractionPart negative significand exponent bs h = .ok t) :
    Scaling (byte '.' :: bs) t.rest ∧ IsFloat t.value := by
  unfold fractionPart at hread
  obtain ⟨ds, hds, hbs, hvalue⟩ := digits_sound maxSignificand significand 0 bs h
  simp only at hread
  split at hread
  · next hnext =>
    obtain ⟨es, hne, hes, hmore⟩ := dropDigits_ne_nil
      (h := (digits maxSignificand significand 0 bs h).le_bound) hnext
    obtain ⟨hend, hfloat⟩ := floatEnd_sound hread
    refine ⟨?_, hfloat⟩
    rw [hbs, hmore, ← List.append_assoc]
    exact .of_digits (by simp [hne]) (hds.append hes) hend
  · split at hread
    · cases hread
    · next hcount =>
      obtain ⟨hend, hfloat⟩ := floatEnd_sound hread
      refine ⟨?_, hfloat⟩
      rw [hbs]
      refine .of_digits ?_ hds hend
      rintro rfl
      exact hcount (by rw [hvalue]; rfl)

theorem afterWhole_sound {negative : Bool} {significand : Nat} {h : bs.length ≤ bound}
    {t : Taken UInt8 Json bound} (hread : afterWhole negative significand bs h = .ok t) :
    (bs = t.rest ∧ t.value = whole negative significand) ∨
      (Scaling bs t.rest ∧ IsFloat t.value) := by
  unfold afterWhole at hread
  split at hread
  · next b rest _ =>
    split at hread
    · next hpoint =>
      subst hpoint
      exact Or.inr (fractionPart_sound hread)
    · split at hread
      · next hletter =>
        simp only [Bool.or_eq_true, decide_eq_true_eq] at hletter
        obtain ⟨hexponent, hfloat⟩ := exponentPart_sound hread hletter
        exact Or.inr ⟨.exponent hexponent, hfloat⟩
      · cases hread
        exact Or.inl ⟨rfl, rfl⟩
  · cases hread
    exact Or.inl ⟨rfl, rfl⟩

theorem afterLongWhole_sound {negative : Bool} {significand : Nat} {h : bs.length ≤ bound}
    {t : Taken UInt8 Json bound} (hread : afterLongWhole negative significand bs h = .ok t) :
    ∃ ds middle, AllDigits ds ∧ bs = ds ++ middle ∧ (middle = t.rest ∨ Scaling middle t.rest) ∧
      IsFloat t.value := by
  have hend : ∀ {middle : List UInt8}, middle = t.rest ∨ Exponent middle t.rest →
      middle = t.rest ∨ Scaling middle t.rest := fun h => h.imp_right .exponent
  unfold afterLongWhole at hread
  obtain ⟨ds, hds, hbs, -⟩ := dropDigits_sound bs h
  refine ⟨ds, _, hds, hbs, ?_⟩
  simp only at hread
  split at hread
  · next b rest _ hrest _ =>
    rw [hrest]
    split at hread
    · next hpoint =>
      subst hpoint
      obtain ⟨hscaling, hfloat⟩ := fractionPart_sound hread
      exact ⟨Or.inr hscaling, hfloat⟩
    · obtain ⟨hfloatEnd, hfloat⟩ := floatEnd_sound hread
      exact ⟨hend hfloatEnd, hfloat⟩
  · next _ hrest _ =>
    rw [hrest]
    obtain ⟨hfloatEnd, hfloat⟩ := floatEnd_sound hread
    exact ⟨hend hfloatEnd, hfloat⟩

/-- What the digits before the point say is kept, or rounded. -/
theorem shows_whole (negative : Bool) (n : Nat) :
    Shows (.integer (if negative then -(n : Int) else n)) (whole negative n) := by
  unfold whole
  cases negative with
  | false => exact .integer n
  | true =>
    simp only [Bool.not_true, Bool.false_eq_true, if_false, if_true]
    split
    · exact .rounded _ _
    · exact .integer _

theorem Whole.of_eq {b : UInt8} {ds rest : List UInt8} (hb : isDigit b = true)
    (hzero : b ≠ byte '0') (hds : AllDigits ds) (hbs : bs = ds ++ rest) :
    Whole (ofDigits (digitValue b) ds) (b :: bs) rest := by
  rw [hbs]
  exact .digits hb hzero hds

theorem Whole.number_sound {negative : Bool} {n : Nat} {middle rest : List UInt8} {v : Json}
    (hwhole : Whole n bs middle)
    (h : (middle = rest ∧ (v = whole negative n ∨ IsFloat v)) ∨
      (Scaling middle rest ∧ IsFloat v)) :
    ∃ tree, Number negative tree bs rest ∧ Shows tree v := by
  rcases h with ⟨rfl, rfl | ⟨x, rfl⟩⟩ | ⟨hscaling, x, rfl⟩
  · exact ⟨_, .integer hwhole, shows_whole negative n⟩
  · exact ⟨_, .integer hwhole, .rounded _ x⟩
  · exact ⟨_, .decimal hwhole hscaling, .decimal x⟩

theorem number_sound {negative : Bool} {b : UInt8} {h : bs.length ≤ bound}
    {t : Taken UInt8 Json bound} (hread : number negative b bs h = .ok t) :
    ∃ tree, Number negative tree (b :: bs) t.rest ∧ Shows tree t.value := by
  unfold number at hread
  split at hread
  · next hzero =>
    split at hread
    · cases hread
    · subst hzero
      refine Whole.zero.number_sound ?_
      exact (afterWhole_sound hread).imp_left fun ⟨hrest, hvalue⟩ => ⟨hrest, Or.inl hvalue⟩
  · next hzero =>
    split at hread
    · next hb =>
      obtain ⟨ds, hds, hbs, hvalue⟩ := digits_sound maxSignificand (digitValue b) 0 bs h
      simp only at hread
      split at hread
      · obtain ⟨es, middle, hes, hmore, hend, hfloat⟩ := afterLongWhole_sound hread
        rw [hmore, ← List.append_assoc] at hbs
        refine (Whole.of_eq hb hzero (hds.append hes) hbs).number_sound ?_
        exact hend.imp (fun hrest => ⟨hrest, Or.inr hfloat⟩) fun hscaling => ⟨hscaling, hfloat⟩
      · rw [hvalue] at hread
        refine (Whole.of_eq hb hzero hds hbs).number_sound ?_
        exact (afterWhole_sound hread).imp_left fun ⟨hrest, hvalue⟩ => ⟨hrest, Or.inl hvalue⟩
    · cases hread

/-! ### Numbers that are passed over -/

theorem skipExponentDigits_sound {h : bs.length ≤ bound} {t : Taken UInt8 Unit bound}
    (hskip : skipExponentDigits bs h = .ok t) :
    ∃ ds, ds ≠ [] ∧ AllDigits ds ∧ bs = ds ++ t.rest := by
  unfold skipExponentDigits at hskip
  split at hskip
  · cases hskip
  · next b rest hrest =>
    split at hskip
    · next hb =>
      cases hskip
      obtain ⟨ds, hds, hbs, -⟩ := dropDigits_sound rest (tail_le hrest)
      exact ⟨b :: ds, List.cons_ne_nil b ds, .cons hb hds, congrArg (b :: ·) hbs⟩
    · cases hskip

theorem skipExponent_sound {h : bs.length ≤ bound} {t : Taken UInt8 Unit bound}
    (hskip : skipExponent bs h = .ok t) {e : UInt8} (he : e = byte 'e' ∨ e = byte 'E') :
    Exponent (e :: bs) t.rest := by
  unfold skipExponent at hskip
  split at hskip
  · split at hskip
    · next hsign =>
      simp only [Bool.or_eq_true, decide_eq_true_eq] at hsign
      have hdigits := skipExponentDigits_sound hskip
      rcases hsign with rfl | rfl
      · exact .of_digits he (Or.inr (Or.inl rfl)) hdigits
      · exact .of_digits he (Or.inr (Or.inr rfl)) hdigits
    · exact .of_digits he (Or.inl rfl) (skipExponentDigits_sound hskip)
  · exact .of_digits he (Or.inl rfl) (skipExponentDigits_sound hskip)

theorem skipFloatEnd_sound {h : bs.length ≤ bound} {t : Taken UInt8 Unit bound}
    (hskip : skipFloatEnd bs h = .ok t) : bs = t.rest ∨ Exponent bs t.rest := by
  unfold skipFloatEnd at hskip
  split at hskip
  · next after hnext =>
    obtain ⟨e, he, rfl⟩ := exponentNext?_eq_some hnext
    exact Or.inr (skipExponent_sound hskip he)
  · cases hskip
    exact Or.inl rfl

theorem skipAfterWhole_sound {h : bs.length ≤ bound} {t : Taken UInt8 Unit bound}
    (hskip : skipAfterWhole bs h = .ok t) : bs = t.rest ∨ Scaling bs t.rest := by
  unfold skipAfterWhole at hskip
  split at hskip
  · next b rest hrest =>
    split at hskip
    · next hpoint =>
      obtain ⟨ds, hds, hbs, hvalue⟩ := dropDigits_sound rest (tail_le hrest)
      simp only at hskip
      split at hskip
      · cases hskip
      · next hcount =>
        subst hpoint
        rw [hbs]
        refine Or.inr (.of_digits ?_ hds (skipFloatEnd_sound hskip))
        rintro rfl
        exact hcount hvalue
    · exact (skipFloatEnd_sound hskip).imp_right .exponent
  · cases hskip
    exact Or.inl rfl

theorem Whole.skip_sound (negative : Bool) {n : Nat} {middle rest : List UInt8}
    (hwhole : Whole n bs middle) (h : middle = rest ∨ Scaling middle rest) :
    ∃ tree, Number negative tree bs rest := by
  rcases h with rfl | hscaling
  · exact ⟨_, .integer hwhole⟩
  · exact ⟨_, .decimal hwhole hscaling⟩

theorem skipNumber_sound (negative : Bool) {b : UInt8} {h : bs.length ≤ bound}
    {t : Taken UInt8 Unit bound} (hskip : skipNumber b bs h = .ok t) :
    ∃ tree, Number negative tree (b :: bs) t.rest := by
  unfold skipNumber at hskip
  split at hskip
  · next hzero =>
    split at hskip
    · cases hskip
    · subst hzero
      exact Whole.zero.skip_sound negative (skipAfterWhole_sound hskip)
  · next hzero =>
    split at hskip
    · next hb =>
      obtain ⟨ds, hds, hbs, -⟩ := dropDigits_sound bs h
      exact (Whole.of_eq hb hzero hds hbs).skip_sound negative (skipAfterWhole_sound hskip)
    · cases hskip

end Numbers

/-! ### Values without parts -/

section Scalars

variable {bound : Nat} {b : UInt8} {bs : List UInt8}

theorem literal_sound {word : List UInt8} {h : bs.length ≤ bound} {t : Taken UInt8 Unit bound}
    (hread : literal word bs h = .ok t) : bs = word ++ t.rest := by
  induction word generalizing bs with
  | nil =>
    rw [literal] at hread
    cases hread
    rfl
  | cons w word ih =>
    cases bs with
    | nil => cases hread
    | cons b bs =>
      rw [literal] at hread
      split at hread
      · next hb =>
        rw [hb, List.cons_append, ← ih hread]
      · cases hread

theorem scalar?_sound {h : bs.length ≤ bound} {t : Taken UInt8 Json bound}
    (hread : scalar? b bs h = some (.ok t)) :
    ∃ tree, Value tree (b :: bs) t.rest ∧ Shows tree t.value := by
  have hword : ∀ {word : List UInt8} {v : Json}, ((literal word bs h).map fun t => t.map fun _ => v) =
      .ok t → bs = word ++ t.rest ∧ t.value = v := by
    intro word v hmap
    cases hliteral : literal word bs h with
    | error e => rw [hliteral] at hmap; cases hmap
    | ok u =>
      rw [hliteral] at hmap
      cases hmap
      exact ⟨literal_sound hliteral, rfl⟩
  unfold scalar? at hread
  split at hread
  · next hb =>
    obtain ⟨hbs, hvalue⟩ := hword (Option.some.inj hread)
    rw [hb, hvalue, hbs]
    exact ⟨.null, .null, .null⟩
  split at hread
  · next hb =>
    obtain ⟨hbs, hvalue⟩ := hword (Option.some.inj hread)
    rw [hb, hvalue, hbs]
    exact ⟨.bool true, .yes, .bool true⟩
  split at hread
  · next hb =>
    obtain ⟨hbs, hvalue⟩ := hword (Option.some.inj hread)
    rw [hb, hvalue, hbs]
    exact ⟨.bool false, .no, .bool false⟩
  split at hread
  · next hb =>
    cases hstring : stringText bs h with
    | error e => rw [hstring] at hread; cases hread
    | ok u =>
      rw [hstring] at hread
      cases hread
      obtain ⟨ps, hchars, htext⟩ := stringText_sound hstring
      subst hb
      refine ⟨_, .string hchars, ?_⟩
      rw [htext]
      exact .string u.value
  split at hread
  · next hb =>
    have hread := Option.some.inj hread
    unfold negativeNumber at hread
    split at hread
    · cases hread
    · obtain ⟨tree, hnumber, hshows⟩ := number_sound hread
      subst hb
      exact ⟨tree, .negative hnumber, hshows⟩
  split at hread
  · obtain ⟨tree, hnumber, hshows⟩ := number_sound (Option.some.inj hread)
    exact ⟨tree, .number hnumber, hshows⟩
  · cases hread

theorem skipScalar_sound {h : bs.length ≤ bound} {t : Taken UInt8 Unit bound}
    (hskip : skipScalar b bs h = .ok t) : ∃ tree, Value tree (b :: bs) t.rest := by
  unfold skipScalar at hskip
  split at hskip
  · next hb =>
    rw [hb, literal_sound hskip]
    exact ⟨.null, .null⟩
  split at hskip
  · next hb =>
    rw [hb, literal_sound hskip]
    exact ⟨.bool true, .yes⟩
  split at hskip
  · next hb =>
    rw [hb, literal_sound hskip]
    exact ⟨.bool false, .no⟩
  split at hskip
  · next hb =>
    obtain ⟨ps, hchars⟩ := skipString_sound hskip
    subst hb
    exact ⟨_, .string hchars⟩
  split at hskip
  · next hb =>
    unfold skipNegativeNumber at hskip
    split at hskip
    · cases hskip
    · obtain ⟨tree, hnumber⟩ := skipNumber_sound true hskip
      subst hb
      exact ⟨tree, .negative hnumber⟩
  split at hskip
  · obtain ⟨tree, hnumber⟩ := skipNumber_sound false hskip
    exact ⟨tree, .number hnumber⟩
  · cases hskip

end Scalars

end LanguageServer.Json
