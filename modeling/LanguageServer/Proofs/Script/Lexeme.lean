import LanguageServer.Proofs.Script.Exact
import LanguageServer.Proofs.Text.Blank
import Mathlib.Data.List.TakeWhile

/-! # Words, numbers and texts as tokens

The spelling of a token, when it stands in front of characters that do not belong to it, is read
back as that token. `Cuts cs ks rest` says that the characters `cs` begin with tokens of the kinds
`ks` and then go on with `rest`; such statements compose, and the tokens of a whole text follow.

* `lexeme_cases`: what a token can be;
* `IsName`, `IsNumber`: the spellings of identifiers and numbers, and `tokens_lexical`: the lexer
  makes identifiers and numbers of nothing else;
* `cuts_name`, `cuts_number`, `cuts_text`, `cuts_spaced`, `cuts_sign`, `cuts_mark`: one token;
* `Cuts.trans`, `tokens_of_cuts`: a whole text. -/

namespace LanguageServer.Script

open Token (gap scan lexeme isSpacing startsWord isWordChar numberTail quotedText ofWord)

/-! ### Classes of characters -/

theorem isAlpha_bounds {c : Char} (h : c.isAlpha = true) : 65 ≤ c.toNat ∧ c.toNat ≤ 122 := by
  rcases Bool.or_eq_true_iff.mp h with hupper | hlower
  · have hbounds : 65 ≤ c.toNat ∧ c.toNat ≤ 90 := of_decide_eq_true hupper
    omega
  · obtain ⟨hlow, hhigh⟩ := Bool.and_eq_true_iff.mp hlower
    have hlow : 97 ≤ c.toNat := of_decide_eq_true hlow
    have hhigh : c.toNat ≤ 122 := of_decide_eq_true hhigh
    omega

/-- A character that starts a word stands behind all marks, digits and the ASCII operators but two,
and is in the table of letters if it is no ASCII character. -/
theorem startsWord_bounds {c : Char} (h : startsWord c = true) :
    65 ≤ c.toNat ∧ (c.toNat ≤ 122 ∨
      ∃ range ∈ Text.letterRanges, range.1 ≤ c.toNat ∧ c.toNat ≤ range.2) := by
  rw [startsWord, Bool.or_eq_true] at h
  rcases h with h | h
  · unfold Text.isLetter at h
    split_ifs at h with hascii
    · exact ⟨(isAlpha_bounds h).1, Or.inl (isAlpha_bounds h).2⟩
    · exact ⟨by omega, Or.inr (Text.Ranges.mem_iff.mp h)⟩
  · obtain rfl : c = '_' := by simpa using h
    exact ⟨by decide, Or.inl (by decide)⟩

theorem letterRanges_apart_from_blankRanges :
    ∀ letters ∈ Text.letterRanges, ∀ blanks ∈ Text.blankRanges,
      letters.2 < blanks.1 ∨ blanks.2 < letters.1 := by decide +kernel

theorem isBlank_of_startsWord {c : Char} (h : startsWord c = true) : Text.isBlank c = false := by
  rw [Bool.eq_false_iff]
  intro hblank
  obtain ⟨hlow, hascii | ⟨letters, hletters, hletter⟩⟩ := startsWord_bounds h
  · rw [Text.isBlank_eq_false_of_ascii (Nat.le_trans (by decide) hlow) hascii] at hblank
    cases hblank
  · obtain ⟨blanks, hblanks, hfrom, hto⟩ := Text.Ranges.mem_iff.mp hblank
    have := letterRanges_apart_from_blankRanges letters hletters blanks hblanks
    omega

theorem isSpacing_of_startsWord {c : Char} (h : startsWord c = true) : isSpacing c = false := by
  rw [isSpacing, isBlank_of_startsWord h, Bool.false_and]

theorem numeralRanges_apart_from_blankRanges :
    ∀ numerals ∈ Text.numeralRanges, ∀ blanks ∈ Text.blankRanges,
      numerals.2 < blanks.1 ∨ blanks.2 < numerals.1 := by decide +kernel

theorem isDigit_of_isBlank {c : Char} (h : Text.isBlank c = true) : c.isDigit = false := by
  rw [Bool.eq_false_iff]
  intro hdigit
  rw [Text.isBlank_eq_false_of_isDigit hdigit] at h
  cases h

theorem isNumeral_of_isBlank {c : Char} (h : Text.isBlank c = true) :
    Text.isNumeral c = false := by
  unfold Text.isNumeral
  split_ifs
  · exact isDigit_of_isBlank h
  · rw [Bool.eq_false_iff]
    intro hnumeral
    obtain ⟨numerals, hnumerals, hlow, hhigh⟩ := Text.Ranges.mem_iff.mp hnumeral
    obtain ⟨blanks, hblanks, hfrom, hto⟩ := Text.Ranges.mem_iff.mp h
    have := numeralRanges_apart_from_blankRanges numerals hnumerals blanks hblanks
    omega

theorem isWordChar_of_isBlank {c : Char} (h : Text.isBlank c = true) : isWordChar c = false := by
  have hstarts : startsWord c = false := by
    rw [Bool.eq_false_iff]
    intro hstarts
    rw [isBlank_of_startsWord hstarts] at h
    cases h
  rw [startsWord, Bool.or_eq_false_iff] at hstarts
  rw [isWordChar, hstarts.1, isNumeral_of_isBlank h, hstarts.2]
  rfl

theorem isSpacing_of_isDigit {c : Char} (h : c.isDigit = true) : isSpacing c = false := by
  rw [isSpacing, Text.isBlank_eq_false_of_isDigit h, Bool.false_and]

/-! ### One step of the lexer -/

theorem gap_spacing {c : Char} (h : isSpacing c = true) (cs : List Char) :
    gap (c :: cs) = gap cs + 1 := by
  unfold gap
  rw [List.takeWhile_cons_of_pos h]
  simp only [List.length_cons, List.drop_succ_cons]
  split <;> omega

theorem gap_eq_zero {c : Char} {cs : List Char} (hspacing : isSpacing c = false)
    (hcomment : c = '/' → cs.head? ≠ some '/') : gap (c :: cs) = 0 := by
  unfold gap
  rw [List.takeWhile_cons_of_neg (by rw [hspacing]; exact Bool.false_ne_true)]
  simp only [List.length_nil, List.drop_zero]
  split
  · next comment heq =>
    obtain ⟨rfl, rfl⟩ := List.cons.inj heq
    exact absurd rfl (hcomment rfl)
  · rfl

theorem scan_spacing {c : Char} (h : isSpacing c = true) (pos : Nat) (cs : List Char)
    (read : List Token) : scan pos (c :: cs) read = scan (pos + 1) cs read := by
  have hpos : pos + (gap cs + 1) = pos + 1 + gap cs := by omega
  rw [scan_eq, scan_eq (pos + 1), gap_spacing h, List.drop_succ_cons, hpos]

theorem scan_lexeme {c : Char} {cs : List Char} {kind : Token.Kind} {more : Nat}
    (hgap : gap (c :: cs) = 0) (hlexeme : lexeme c cs = .ok (kind, more)) (pos : Nat)
    (read : List Token) :
    scan pos (c :: cs) read =
      scan (pos + 1 + more) (cs.drop more) (⟨kind, ⟨pos, pos + 1 + more⟩⟩ :: read) := by
  rw [scan_eq, hgap, List.drop_zero]
  simp only [hlexeme, Nat.add_zero]

/-- The characters `cs` begin with tokens of the given kinds and then go on with `rest`. -/
def Cuts (cs : List Char) (ks : List Token.Kind) (rest : List Char) : Prop :=
  ∀ pos read, ∃ (pos' : Nat) (ts : List Token), ts.map Token.kind = ks ∧
    scan pos cs read = scan pos' rest (ts.reverse ++ read)

theorem Cuts.refl (cs : List Char) : Cuts cs [] cs := fun pos _ => ⟨pos, [], rfl, rfl⟩

theorem Cuts.trans {cs middle rest : List Char} {ks ls : List Token.Kind} (h : Cuts cs ks middle)
    (h' : Cuts middle ls rest) : Cuts cs (ks ++ ls) rest := by
  intro pos read
  obtain ⟨pos', ts, rfl, hscan⟩ := h pos read
  obtain ⟨pos'', ts', rfl, hscan'⟩ := h' pos' (ts.reverse ++ read)
  refine ⟨pos'', ts ++ ts', List.map_append, ?_⟩
  rw [hscan, hscan', List.reverse_append, List.append_assoc]

theorem cuts_spacing {c : Char} (h : isSpacing c = true) (cs : List Char) :
    Cuts (c :: cs) [] cs := fun pos read => ⟨pos + 1, [], rfl, scan_spacing h pos cs read⟩

theorem cuts_lexeme {c : Char} {cs : List Char} {kind : Token.Kind} {more : Nat}
    (hgap : gap (c :: cs) = 0) (hlexeme : lexeme c cs = .ok (kind, more)) :
    Cuts (c :: cs) [kind] (cs.drop more) := fun pos read =>
  ⟨pos + 1 + more, [⟨kind, ⟨pos, pos + 1 + more⟩⟩], rfl, scan_lexeme hgap hlexeme pos read⟩

/-- **The tokens of a text** that is cut to its end. -/
theorem tokens_of_cuts {text : String} {ks : List Token.Kind} (h : Cuts text.toList ks []) :
    ∃ ts, tokens text = .ok ts ∧ ts.map Token.kind = ks ++ [.finish] := by
  obtain ⟨pos, ts, rfl, hscan⟩ := h 0 []
  refine ⟨ts ++ [⟨.finish, ⟨pos, pos⟩⟩], ?_, by simp⟩
  rw [tokens, hscan, scan_eq]
  simp [gap]

/-! ### Marks and operators -/

/-- The marks that are tokens by themselves. -/
def marks : List (Char × Token.Kind) :=
  [('\n', .newline), ('(', .openParen), (')', .closeParen), (',', .comma), ('.', .dot)]

/-- **What a token can be,** and how many characters it takes. -/
theorem lexeme_cases {c : Char} {cs : List Char} {kind : Token.Kind} {more : Nat}
    (h : lexeme c cs = .ok (kind, more)) :
    ((c, kind) ∈ marks ∧ more = 0) ∨
    (c = '"' ∧ ∃ contents, kind = .text contents ∧
      quotedText 0 [] cs = .ok (contents, more)) ∨
    (c.isDigit = true ∧ kind = .number (String.ofList (c :: cs.take more)) ∧
      more = numberTail cs) ∨
    (startsWord c = true ∧ kind = ofWord (String.ofList (c :: cs.take more)) ∧
      more = (cs.takeWhile isWordChar).length) ∨
    ∃ op, Operator.readFrom? (c :: cs) = some op ∧ kind = .operator op ∧
      more = op.symbol.length - 1 := by
  unfold lexeme at h
  split_ifs at h with hnewline hopen hclose hcomma hdot hquote hdigit hword
  · cases h; subst hnewline; exact Or.inl (by decide)
  · cases h; subst hopen; exact Or.inl (by decide)
  · cases h; subst hclose; exact Or.inl (by decide)
  · cases h; subst hcomma; exact Or.inl (by decide)
  · cases h; subst hdot; exact Or.inl (by decide)
  · cases hq : quotedText 0 [] cs with
    | error e => rw [hq] at h; cases h
    | ok q => rw [hq] at h; cases h; exact Or.inr (Or.inl ⟨hquote, q.1, rfl, rfl⟩)
  · cases h; exact Or.inr (Or.inr (Or.inl ⟨hdigit, rfl, rfl⟩))
  · cases h; exact Or.inr (Or.inr (Or.inr (Or.inl ⟨hword, rfl, rfl⟩)))
  · split at h
    · next op hop => cases h; exact Or.inr (Or.inr (Or.inr (Or.inr ⟨op, hop, rfl, rfl⟩)))
    · cases h

theorem cuts_mark {c : Char} {kind : Token.Kind} (h : (c, kind) ∈ marks) (cs : List Char) :
    Cuts (c :: cs) [kind] cs := by
  have hspacing : ∀ mark ∈ marks, isSpacing mark.1 = false ∧ mark.1 ≠ '/' := by decide
  have hgap : gap (c :: cs) = 0 :=
    gap_eq_zero (hspacing _ h).1 fun hslash => absurd hslash (hspacing _ h).2
  have hlexeme : lexeme c cs = .ok (kind, 0) := by
    simp only [marks, List.mem_cons, Prod.mk.injEq, List.not_mem_nil, or_false] at h
    rcases h with ⟨rfl, rfl⟩ | ⟨rfl, rfl⟩ | ⟨rfl, rfl⟩ | ⟨rfl, rfl⟩ | ⟨rfl, rfl⟩ <;> rfl
  exact cuts_lexeme hgap hlexeme

theorem symbol_head (op : Operator) : ∃ c cs, op.symbol.toList = c :: cs ∧
    op.symbol.length - 1 = cs.length ∧ c.isDigit = false ∧ startsWord c = false ∧
    isSpacing c = false ∧ c ≠ '"' ∧ ∀ mark ∈ marks, c ≠ mark.1 := by
  cases op <;> exact ⟨_, _, rfl, by decide⟩

/-- An operator that the text begins with, and that does not begin a comment. -/
theorem cuts_operator {op : Operator} {rest : List Char}
    (hread : Operator.readFrom? (op.symbol.toList ++ rest) = some op)
    (hcomment : op = .divide → rest.head? ≠ some '/') :
    Cuts (op.symbol.toList ++ rest) [.operator op] rest := by
  obtain ⟨c, cs, hsymbol, hlength, hdigit, hword, hspacing, hquote, hmarks⟩ := symbol_head op
  rw [hsymbol, List.cons_append] at hread ⊢
  have hlexeme : lexeme c (cs ++ rest) = .ok (.operator op, cs.length) := by
    simp only [marks, List.forall_mem_cons] at hmarks
    simp [lexeme, hmarks, hquote, hdigit, hword, hread, hlength]
  have hgap : gap (c :: (cs ++ rest)) = 0 := by
    refine gap_eq_zero hspacing fun hslash => ?_
    -- only one operator begins with a slash, and it has no second character
    have hdivide : op = .divide ∧ cs = [] := by
      subst hslash
      cases op <;> simp [Operator.symbol] at hsymbol
      exact ⟨rfl, hsymbol⟩
    rw [hdivide.2]
    exact hcomment hdivide.1
  have hcuts := cuts_lexeme hgap hlexeme
  rwa [List.drop_left] at hcuts

theorem cuts_spaced (op : Operator) (cs : List Char) :
    Cuts (' ' :: (op.symbol.toList ++ ' ' :: cs)) [.operator op] cs := by
  have hread : Operator.readFrom? (op.symbol.toList ++ ' ' :: cs) = some op := by
    cases op <;> rfl
  have hop := cuts_operator hread fun _ => by simp
  exact (cuts_spacing (by decide) _).trans (hop.trans (cuts_spacing (by decide) cs))

theorem cuts_sign {op : Operator} (h : op ∈ [Operator.minus, .not]) {cs : List Char}
    (hcs : cs.head? ≠ some '=') : Cuts (op.symbol.toList ++ cs) [.operator op] cs := by
  simp only [List.mem_cons, List.not_mem_nil, or_false] at h
  refine cuts_operator ?_ (by rcases h with rfl | rfl <;> simp)
  rcases h with rfl | rfl
  · rfl
  · cases cs with
    | nil => rfl
    | cons c cs =>
      have hc : ('=' == c) = false := beq_false_of_ne fun h => hcs (congrArg some h.symm)
      simp [Operator.readFrom?, Operator.all, Operator.symbol, List.isPrefixOf, hc]

/-! ### Words -/

/-- The spelling of an identifier. -/
def IsName (name : String) : Prop :=
  (∃ c cs, name.toList = c :: cs ∧ startsWord c = true ∧ ∀ d ∈ cs, isWordChar d = true) ∧
    ofWord name = .identifier name

theorem takeWhile_exact {p : Char → Bool} {cs rest : List Char} (hcs : ∀ c ∈ cs, p c = true)
    (hrest : ∀ c ∈ rest.head?, p c = false) : (cs ++ rest).takeWhile p = cs := by
  rw [List.takeWhile_append_of_pos hcs]
  cases rest with
  | nil => simp
  | cons c rest => simp [hrest c rfl]

theorem lexeme_word {c : Char} {cs rest : List Char} (hc : startsWord c = true)
    (hcs : ∀ d ∈ cs, isWordChar d = true) (hrest : ∀ d ∈ rest.head?, isWordChar d = false) :
    lexeme c (cs ++ rest) = .ok (ofWord (String.ofList (c :: cs)), cs.length) := by
  have hlow := (startsWord_bounds hc).1
  have hne : ∀ d : Char, d.toNat < 65 → c ≠ d := by
    rintro d hd rfl
    omega
  have hdigit : c.isDigit = false := by
    rw [Bool.eq_false_iff]
    intro h
    have := (Char.isDigit_iff_toNat.mp h).2
    simp at this
    omega
  simp [lexeme, hne, hdigit, hc, takeWhile_exact hcs hrest]

theorem cuts_word (word : String) {c : Char} {cs : List Char} (hword : word.toList = c :: cs)
    (hc : startsWord c = true) (hcs : ∀ d ∈ cs, isWordChar d = true) {rest : List Char}
    (hrest : ∀ d ∈ rest.head?, isWordChar d = false) :
    Cuts (word.toList ++ rest) [ofWord word] rest := by
  have hslash : c ≠ '/' := by
    rintro rfl
    exact absurd (startsWord_bounds hc).1 (by decide)
  have hgap : gap (c :: (cs ++ rest)) = 0 :=
    gap_eq_zero (isSpacing_of_startsWord hc) fun h => absurd h hslash
  have hcuts := cuts_lexeme hgap (lexeme_word hc hcs hrest)
  rwa [List.drop_left, ← hword, String.ofList_toList, ← List.cons_append, ← hword] at hcuts

theorem cuts_name {name : String} (h : IsName name) {rest : List Char}
    (hrest : ∀ d ∈ rest.head?, isWordChar d = false) :
    Cuts (name.toList ++ rest) [.identifier name] rest := by
  obtain ⟨⟨c, cs, hname, hc, hcs⟩, hkind⟩ := h
  rw [← hkind]
  exact cuts_word name hname hc hcs hrest

/-! ### Numbers -/

/-- What may stand behind the first digit of a number: digits, then possibly a point and digits. -/
def IsNumberTail (cs : List Char) : Prop :=
  ∃ whole fraction, cs = whole ++ fraction ∧ (∀ d ∈ whole, d.isDigit = true) ∧
    (fraction = [] ∨ ∃ d ds, fraction = '.' :: d :: ds ∧ ∀ e ∈ d :: ds, e.isDigit = true)

/-- The spelling of a number. -/
def IsNumber (digits : String) : Prop :=
  ∃ c cs, digits.toList = c :: cs ∧ c.isDigit = true ∧ IsNumberTail cs

theorem take_length_takeWhile (p : Char → Bool) (cs : List Char) :
    cs.take (cs.takeWhile p).length = cs.takeWhile p :=
  (List.prefix_iff_eq_take.mp (List.takeWhile_prefix p)).symm

theorem isNumberTail_take (cs : List Char) : IsNumberTail (cs.take (numberTail cs)) := by
  have hwhole : ∀ d ∈ cs.takeWhile Char.isDigit, d.isDigit = true := fun _ =>
    List.mem_takeWhile_imp
  have hplain : IsNumberTail (cs.take (cs.takeWhile Char.isDigit).length) := by
    rw [take_length_takeWhile]
    exact ⟨_, [], (List.append_nil _).symm, hwhole, Or.inl rfl⟩
  unfold numberTail
  simp only
  split
  · next d fraction hdrop =>
    split_ifs with hd
    · refine ⟨cs.takeWhile Char.isDigit, '.' :: d :: fraction.takeWhile Char.isDigit, ?_, hwhole,
        Or.inr ⟨d, _, rfl, ?_⟩⟩
      · rw [Nat.add_assoc, List.take_add, take_length_takeWhile, hdrop, Nat.add_comm 2,
          List.take_succ_cons, List.take_succ_cons, take_length_takeWhile]
      · exact List.forall_mem_cons.mpr ⟨hd, fun _ => List.mem_takeWhile_imp⟩
    · exact hplain
  · exact hplain

theorem numberTail_append {cs rest : List Char} (h : IsNumberTail cs)
    (hrest : ∀ c ∈ rest.head?, c.isDigit = false ∧ c ≠ '.') :
    numberTail (cs ++ rest) = cs.length := by
  have hstop : ∀ c ∈ rest.head?, c.isDigit = false := fun c hc => (hrest c hc).1
  obtain ⟨whole, fraction, rfl, hwhole, rfl | ⟨d, ds, rfl, hds⟩⟩ := h
  · unfold numberTail
    rw [List.append_nil, takeWhile_exact hwhole hstop]
    simp only [List.drop_left]
    split
    · exact absurd rfl (hrest '.' rfl).2
    · rfl
  · have htake : (whole ++ '.' :: d :: ds ++ rest).takeWhile Char.isDigit = whole := by
      rw [List.append_assoc]
      exact takeWhile_exact hwhole fun c hc => by cases hc; decide
    have hfraction : (ds ++ rest).takeWhile Char.isDigit = ds :=
      takeWhile_exact (fun e he => hds e (List.mem_cons_of_mem d he)) hstop
    unfold numberTail
    rw [htake, List.append_assoc]
    simp only [List.drop_left, List.cons_append, hds d List.mem_cons_self, if_true, hfraction,
      List.length_append, List.length_cons]
    omega

theorem cuts_number {digits : String} (h : IsNumber digits) {rest : List Char}
    (hrest : ∀ c ∈ rest.head?, c.isDigit = false ∧ c ≠ '.') :
    Cuts (digits.toList ++ rest) [.number digits] rest := by
  obtain ⟨c, cs, hdigits, hc, hcs⟩ := h
  have hne : ∀ d : Char, d.isDigit = false → c ≠ d := by
    rintro d hd rfl
    rw [hc] at hd
    cases hd
  have hlexeme : lexeme c (cs ++ rest) = .ok (.number digits, cs.length) := by
    have hword : String.ofList (c :: cs) = digits := by rw [← hdigits, String.ofList_toList]
    simp [lexeme, hne, hc, numberTail_append hcs hrest, hword]
  have hgap : gap (c :: (cs ++ rest)) = 0 :=
    gap_eq_zero (isSpacing_of_isDigit hc) fun hslash => absurd hslash (hne '/' (by decide))
  have hcuts := cuts_lexeme hgap hlexeme
  rwa [List.drop_left, ← List.cons_append, ← hdigits] at hcuts

/-! ### Texts -/

/-- The character is quoted as it is, or by an escape that the lexer knows. -/
def IsLegible (c : Char) : Prop :=
  Text.escape '"' c = [c] ∨ Text.escape '"' c ∈
    [['\\', 'n'], ['\\', 't'], ['\\', 'r'], ['\\', '"'], ['\\', '\\']]

instance (c : Char) : Decidable (IsLegible c) := inferInstanceAs (Decidable (_ ∨ _))

theorem quotedText_escape {c : Char} (h : IsLegible c) (width : Nat) (read cs : List Char) :
    quotedText width read (Text.escape '"' c ++ cs) =
      quotedText (width + (Text.escape '"' c).length) (c :: read) cs := by
  unfold IsLegible at h
  unfold Text.escape at h ⊢
  split_ifs at h ⊢ with hnul htab hreturn hline hback hquote hhidden
  · simp at h
  · subst htab; rfl
  · subst hreturn; rfl
  · subst hline; rfl
  · subst hback; rfl
  · subst hquote; rfl
  · simp at h
  · simp [quotedText, hback]

theorem quotedText_escaped {cs : List Char} (h : ∀ c ∈ cs, IsLegible c) (width : Nat)
    (read rest : List Char) :
    quotedText width read (cs.flatMap (Text.escape '"') ++ '"' :: rest) =
      .ok (String.ofList (read.reverse ++ cs),
        width + (cs.flatMap (Text.escape '"')).length + 1) := by
  induction cs generalizing width read with
  | nil => simp [quotedText]
  | cons c cs ih =>
    rw [List.flatMap_cons, List.append_assoc, quotedText_escape (h c List.mem_cons_self),
      ih (fun d hd => h d (List.mem_cons_of_mem c hd)), List.length_append, List.reverse_cons,
      List.append_assoc, List.singleton_append, Nat.add_assoc width]

theorem cuts_text {contents : String} (h : ∀ c ∈ contents.toList, IsLegible c)
    (rest : List Char) :
    Cuts ((Text.quoted contents).toList ++ rest) [.text contents] rest := by
  have hquoted : (Text.quoted contents).toList ++ rest =
      '"' :: (contents.toList.flatMap (Text.escape '"') ++ '"' :: rest) := by
    simp [Text.quoted]
  have hlexeme : lexeme '"' (contents.toList.flatMap (Text.escape '"') ++ '"' :: rest) =
      .ok (.text contents, (contents.toList.flatMap (Text.escape '"')).length + 1) := by
    simp [lexeme, quotedText_escaped h, Except.map]
  have hgap : gap ('"' :: (contents.toList.flatMap (Text.escape '"') ++ '"' :: rest)) = 0 :=
    gap_eq_zero (by decide) (fun h => absurd h (by decide))
  have hcuts := cuts_lexeme hgap hlexeme
  rwa [← hquoted, List.drop_length_add_append] at hcuts

/-! ### What the lexer makes tokens of -/

/-- Names and numbers are spelled as such. -/
def Token.Kind.Lexical : Token.Kind → Prop
  | identifier name => IsName name
  | number digits => IsNumber digits
  | _ => True

theorem ofWord_lexical {c : Char} {cs : List Char} (hc : startsWord c = true)
    (hcs : ∀ d ∈ cs, isWordChar d = true) : (ofWord (String.ofList (c :: cs))).Lexical := by
  have hspelled : ∃ d ds, (String.ofList (c :: cs)).toList = d :: ds ∧ startsWord d = true ∧
      ∀ e ∈ ds, isWordChar e = true := ⟨c, cs, String.toList_ofList, hc, hcs⟩
  generalize String.ofList (c :: cs) = word at hspelled ⊢
  unfold ofWord
  split_ifs with htrue hfalse hnull
  · trivial
  · trivial
  · trivial
  · exact ⟨hspelled, by rw [ofWord, if_neg htrue, if_neg hfalse, if_neg hnull]⟩

theorem lexeme_lexical {c : Char} {cs : List Char} {kind : Token.Kind} {more : Nat}
    (h : lexeme c cs = .ok (kind, more)) : kind.Lexical := by
  rcases lexeme_cases h with ⟨hmark, -⟩ | ⟨-, contents, rfl, -⟩ | ⟨hdigit, rfl, rfl⟩ |
    ⟨hword, rfl, rfl⟩ | ⟨op, -, rfl, -⟩
  · simp only [marks, List.mem_cons, Prod.mk.injEq, List.not_mem_nil, or_false] at hmark
    rcases hmark with ⟨-, rfl⟩ | ⟨-, rfl⟩ | ⟨-, rfl⟩ | ⟨-, rfl⟩ | ⟨-, rfl⟩ <;> trivial
  · trivial
  · exact ⟨c, cs.take (numberTail cs), String.toList_ofList, hdigit, isNumberTail_take cs⟩
  · refine ofWord_lexical hword fun d hd => ?_
    rw [take_length_takeWhile] at hd
    exact List.mem_takeWhile_imp hd
  · trivial

/-- **The names and numbers among the tokens of a text are spelled as such.** -/
theorem tokens_lexical {text : String} {ts : List Token} (h : tokens text = .ok ts) :
    ∀ t ∈ ts, t.kind.Lexical := by
  obtain ⟨pos, cs, read, hread, -, rfl⟩ :=
    scan_invariant (P := fun _ _ read => ∀ t ∈ read, t.kind.Lexical)
      (fun hread _ hlexeme => List.forall_mem_cons.mpr ⟨lexeme_lexical hlexeme, hread⟩) (by simp) h
  intro t ht
  rcases List.mem_cons.mp (List.mem_reverse.mp ht) with rfl | ht
  · trivial
  · exact hread t ht

end LanguageServer.Script
