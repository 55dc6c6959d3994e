import LanguageServer.Proofs.Script.Lexeme

/-! # How tokens are spelled

What a token looks like in the text, said without the lexer that finds it. `Spelled kind cs after`
says that the characters `cs`, in front of `after`, spell a token of the kind and that no more
characters belong to it; `Filler cs after` says that `cs`, in front of `after`, is no token but what
may stand between tokens; and `Fault.ShownBy` says at which characters no token can be found.

* `filler_gap`: a gap is filler;
* `lexeme_spelled`: a token the lexer finds is spelled as one;
* `lexeme_shown`: where the lexer finds none, the characters show why. -/

namespace LanguageServer.Script

open Token (gap lexeme isSpacing startsWord isWordChar numberTail quotedText unescape? ofWord)

/-! ### Quoted texts -/

/-- The escapes of a quoted text: the character behind the backslash and what both stand for. -/
def escapes : List (Char × Char) :=
  [('n', '\n'), ('t', '\t'), ('r', '\r'), ('"', '"'), ('\\', '\\')]

/-- The characters between the quotes, with their escapes replaced, are the contents. -/
inductive Unescapes : List Char → List Char → Prop
  | nil : Unescapes [] []
  | escape {e c : Char} {cs contents : List Char} : (e, c) ∈ escapes → Unescapes cs contents →
      Unescapes ('\\' :: e :: cs) (c :: contents)
  | plain {c : Char} {cs contents : List Char} : c ≠ '\\' → c ≠ '"' → c ≠ '\n' →
      Unescapes cs contents → Unescapes (c :: cs) (c :: contents)

theorem unescape?_eq_some {e c : Char} : unescape? e = some c ↔ (e, c) ∈ escapes := by
  unfold unescape?
  split <;> simp_all [escapes, eq_comm]

theorem Unescapes.newline_notMem {cs contents : List Char} (h : Unescapes cs contents) :
    '\n' ∉ cs := by
  induction h with
  | nil => exact List.not_mem_nil
  | @escape e c _ _ he _ ih =>
    have hne : ∀ pair ∈ escapes, '\n' ≠ pair.1 := by decide
    simp [hne _ he, ih]
  | plain _ _ hc _ ih => simp [Ne.symm hc, ih]

/-- A character that neither ends its line nor the text, and that no other follows as an escape,
is not the backslash. -/
theorem ne_backslash {c : Char} {cs : List Char} (hlast : c = '\\' → cs = [] → False)
    (hescape : ∀ e more, c = '\\' → cs = e :: more → False) : c ≠ '\\' := by
  rintro rfl
  cases cs with
  | nil => exact hlast rfl rfl
  | cons e more => exact hescape e more rfl rfl

theorem quotedText_ok {width more : Nat} {read cs : List Char} {contents : String}
    (h : quotedText width read cs = .ok (contents, more)) :
    ∃ inside new rest, cs = inside ++ '"' :: rest ∧ Unescapes inside new ∧
      contents = String.ofList (read.reverse ++ new) ∧ more = width + inside.length + 1 := by
  fun_induction quotedText width read cs with
  | case1 => cases h
  | case2 => cases h
  | case3 => cases h; exact ⟨[], [], _, rfl, .nil, by simp, rfl⟩
  | case4 => cases h
  | case5 width read e cs c hc ih =>
    obtain ⟨inside, new, rest, rfl, hinside, rfl, rfl⟩ := ih h
    refine ⟨'\\' :: e :: inside, c :: new, rest, rfl, .escape (unescape?_eq_some.mp hc) hinside,
      by simp, ?_⟩
    simp only [List.length_cons]
    omega
  | case6 => cases h
  | case7 width read c cs hline hquote hlast hescape ih =>
    have hback := ne_backslash hlast hescape
    obtain ⟨inside, new, rest, rfl, hinside, rfl, rfl⟩ := ih h
    refine ⟨c :: inside, c :: new, rest, rfl, .plain hback hquote hline hinside, by simp, ?_⟩
    simp only [List.length_cons]
    omega

/-- A quoted text is not closed on its line. -/
def Unclosed (cs : List Char) : Prop :=
  ∃ inside contents rest, cs = inside ++ rest ∧ Unescapes inside contents ∧
    ∀ c ∈ rest.head?, c = '\n'

/-- A backslash with nothing behind it that makes an escape. -/
def NoEscape (cs : List Char) : Prop :=
  ∃ rest, cs = '\\' :: rest ∧ ∀ e ∈ rest.head?, ∀ c, (e, c) ∉ escapes

theorem quotedText_error {width ahead : Nat} {read cs : List Char} {fault : Fault}
    (h : quotedText width read cs = .error (fault, ahead)) :
    (fault = .unterminatedString ∧ ahead = 0 ∧ Unclosed cs) ∨
      (fault = .invalidEscape ∧ ∃ inside contents rest, cs = inside ++ rest ∧
        Unescapes inside contents ∧ NoEscape rest ∧ ahead = width + inside.length + 1) := by
  fun_induction quotedText width read cs with
  | case1 => cases h; exact Or.inl ⟨rfl, rfl, [], [], [], rfl, .nil, by simp⟩
  | case2 _ _ cs => cases h; exact Or.inl ⟨rfl, rfl, [], [], '\n' :: cs, rfl, .nil, by simp⟩
  | case3 => cases h
  | case4 => cases h; exact Or.inr ⟨rfl, [], [], _, rfl, .nil, ⟨[], rfl, by simp⟩, rfl⟩
  | case5 width read e cs c hc ih =>
    have hc := unescape?_eq_some.mp hc
    rcases ih h with ⟨hfault, hahead, inside, new, rest, rfl, hinside, hrest⟩ |
      ⟨hfault, inside, new, rest, rfl, hinside, hrest, rfl⟩
    · exact Or.inl ⟨hfault, hahead, '\\' :: e :: inside, c :: new, rest, rfl, .escape hc hinside,
        hrest⟩
    · refine Or.inr ⟨hfault, '\\' :: e :: inside, c :: new, rest, rfl, .escape hc hinside, hrest,
        ?_⟩
      simp only [List.length_cons]
      omega
  | case6 width read e cs hnone =>
    cases h
    refine Or.inr ⟨rfl, [], [], _, rfl, .nil, ⟨e :: cs, rfl, fun e' he' c hc => ?_⟩, rfl⟩
    obtain rfl : e = e' := Option.some.inj he'
    rw [unescape?_eq_some.mpr hc] at hnone
    cases hnone
  | case7 width read c cs hline hquote hlast hescape ih =>
    have hback := ne_backslash hlast hescape
    rcases ih h with ⟨hfault, hahead, inside, new, rest, rfl, hinside, hrest⟩ |
      ⟨hfault, inside, new, rest, rfl, hinside, hrest, rfl⟩
    · exact Or.inl ⟨hfault, hahead, c :: inside, c :: new, rest, rfl,
        .plain hback hquote hline hinside, hrest⟩
    · refine Or.inr ⟨hfault, c :: inside, c :: new, rest, rfl, .plain hback hquote hline hinside,
        hrest, ?_⟩
      simp only [List.length_cons]
      omega

/-! ### Gaps -/

/-- The characters, in front of others, are white space inside a line, then possibly a comment that
ends where its line does. -/
inductive Filler : List Char → List Char → Prop
  | nil (after : List Char) : Filler [] after
  | spacing {c : Char} {cs after : List Char} : isSpacing c = true → Filler cs after →
      Filler (c :: cs) after
  | comment {body after : List Char} : '\n' ∉ body → (∀ c ∈ after.head?, c = '\n') →
      Filler ('/' :: '/' :: body) after

theorem Filler.newline_notMem {cs after : List Char} (h : Filler cs after) : '\n' ∉ cs := by
  induction h with
  | nil => exact List.not_mem_nil
  | spacing hc _ ih =>
    refine List.not_mem_cons_of_ne_of_not_mem ?_ ih
    rintro rfl
    exact absurd hc (by decide)
  | comment hbody _ => simpa using hbody

theorem drop_length_takeWhile (p : Char → Bool) (cs : List Char) :
    cs.drop (cs.takeWhile p).length = cs.dropWhile p := by
  induction cs with
  | nil => rfl
  | cons c cs ih => by_cases h : p c = true <;> simp [h, ih]

theorem head?_drop_takeWhile (p : Char → Bool) (cs : List Char) :
    ∀ c ∈ (cs.drop (cs.takeWhile p).length).head?, p c = false := by
  intro c hc
  have hstop := List.head?_dropWhile_not p cs
  rw [drop_length_takeWhile] at hc
  rw [Option.mem_def.mp hc] at hstop
  simpa using hstop

theorem gap_comment (comment : List Char) :
    gap ('/' :: '/' :: comment) = (comment.takeWhile Token.inLine).length + 2 := by
  have hslash : ¬ isSpacing '/' = true := by decide
  simp [gap, List.takeWhile_cons_of_neg hslash, Nat.add_comm]

theorem gap_cases (c : Char) (cs : List Char) :
    (isSpacing c = true ∧ gap (c :: cs) = gap cs + 1) ∨
    (∃ comment, c = '/' ∧ cs = '/' :: comment) ∨
    (isSpacing c = false ∧ (c = '/' → cs.head? ≠ some '/') ∧ gap (c :: cs) = 0) := by
  by_cases hc : isSpacing c = true
  · exact Or.inl ⟨hc, gap_spacing hc cs⟩
  by_cases hslash : c = '/' ∧ cs.head? = some '/'
  · obtain ⟨rfl, hhead⟩ := hslash
    obtain ⟨comment, rfl⟩ := List.head?_eq_some_iff.mp hhead
    exact Or.inr (Or.inl ⟨comment, rfl, rfl⟩)
  · have hcomment : c = '/' → cs.head? ≠ some '/' := fun h hhead => hslash ⟨h, hhead⟩
    have hc := Bool.eq_false_iff.mpr hc
    exact Or.inr (Or.inr ⟨hc, hcomment, gap_eq_zero hc hcomment⟩)

theorem filler_gap (cs : List Char) : Filler (cs.take (gap cs)) (cs.drop (gap cs)) := by
  induction cs with
  | nil => exact .nil _
  | cons c cs ih =>
    rcases gap_cases c cs with ⟨hc, hgap⟩ | ⟨comment, rfl, rfl⟩ | ⟨-, -, hgap⟩
    · rw [hgap, List.take_succ_cons, List.drop_succ_cons]
      exact .spacing hc ih
    · rw [gap_comment, List.take_succ_cons, List.take_succ_cons, take_length_takeWhile,
        List.drop_succ_cons, List.drop_succ_cons]
      refine .comment (fun hmem => ?_) fun d hd => ?_
      · exact absurd (List.mem_takeWhile_imp hmem) (by decide)
      · simpa [Token.inLine] using head?_drop_takeWhile Token.inLine comment d hd
    · rw [hgap]
      exact .nil _

/-! ### Tokens -/

/-- No character of the class begins what follows. -/
def Bounded (p : Char → Bool) (after : List Char) : Prop := ∀ c ∈ after.head?, p c = false

/-- **How a token is spelled.** The characters are those of a token of the kind, and what follows
them could not belong to it as well. -/
def Token.Kind.Spelled (kind : Token.Kind) (cs after : List Char) : Prop :=
  match kind with
  | identifier name => cs = name.toList ∧ IsName name ∧ Bounded isWordChar after
  | boolean true => cs = "true".toList ∧ Bounded isWordChar after
  | boolean false => cs = "false".toList ∧ Bounded isWordChar after
  | null => cs = "null".toList ∧ Bounded isWordChar after
  | number digits => cs = digits.toList ∧ IsNumber digits ∧ Bounded Char.isDigit after
  | text contents => ∃ inside, cs = '"' :: (inside ++ ['"']) ∧ Unescapes inside contents.toList
  | operator op => cs = op.symbol.toList ∧
      ∀ c ∈ after.head?, ∀ other : Operator, other.symbol.toList ≠ cs ++ [c]
  | openParen => cs = ['(']
  | closeParen => cs = [')']
  | comma => cs = [',']
  | dot => cs = ['.']
  | newline => cs = ['\n']
  | finish => cs = [] ∧ after = []

theorem ofWord_spelled {c : Char} {cs after : List Char} (hc : startsWord c = true)
    (hcs : ∀ d ∈ cs, isWordChar d = true) (hafter : Bounded isWordChar after) :
    (ofWord (String.ofList (c :: cs))).Spelled (c :: cs) after := by
  have hlexical := ofWord_lexical hc hcs
  have hword : c :: cs = (String.ofList (c :: cs)).toList := String.toList_ofList.symm
  generalize String.ofList (c :: cs) = word at hlexical hword ⊢
  rw [hword]
  unfold ofWord at hlexical ⊢
  split_ifs at hlexical ⊢ with htrue hfalse hnull
  · exact ⟨congrArg String.toList htrue, hafter⟩
  · exact ⟨congrArg String.toList hfalse, hafter⟩
  · exact ⟨congrArg String.toList hnull, hafter⟩
  · exact ⟨rfl, hlexical, hafter⟩

theorem numberTail_bounded (cs : List Char) : Bounded Char.isDigit (cs.drop (numberTail cs)) := by
  unfold numberTail
  simp only
  split
  · next d fraction hdrop =>
    split_ifs with hd
    · rw [Nat.add_assoc, ← List.drop_drop, hdrop, Nat.add_comm 2, List.drop_succ_cons,
        List.drop_succ_cons]
      exact head?_drop_takeWhile Char.isDigit fraction
    · exact head?_drop_takeWhile Char.isDigit cs
  · exact head?_drop_takeWhile Char.isDigit cs

/-- **The operator read is the longest:** with the character that follows it is no operator. -/
theorem readFrom?_longest {cs after : List Char} {op other : Operator}
    (h : Operator.readFrom? cs = some op) (hafter : cs = op.symbol.toList ++ after) {c : Char}
    (hc : c ∈ after.head?) : other.symbol.toList ≠ op.symbol.toList ++ [c] := by
  intro hother
  have hshorter : Operator.all.Pairwise fun a b =>
      b.symbol.toList.length ≤ a.symbol.toList.length := by decide
  obtain ⟨-, before, behind, hall, hbefore⟩ := List.find?_eq_some_iff_append.mp h
  have hlength := congrArg List.length hother
  rw [List.length_append, List.length_singleton] at hlength
  -- a longer operator is tried before
  have hmem : other ∈ before := by
    have hmem := other.mem_all
    rw [hall] at hmem hshorter
    rcases List.mem_append.mp hmem with hmem | hmem
    · exact hmem
    · have hle := List.pairwise_cons.mp (List.pairwise_append.mp hshorter).2.1
      rcases List.mem_cons.mp hmem with rfl | hmem
      · omega
      · have := hle.1 other hmem
        omega
  obtain ⟨rest, rfl⟩ : ∃ rest, after = c :: rest := by
    cases after with
    | nil => cases hc
    | cons d rest => exact ⟨rest, by rw [Option.some.inj hc]⟩
  have hbegins : other.symbol.toList.isPrefixOf cs = true := by
    rw [List.isPrefixOf_iff_prefix, hother, hafter]
    exact ⟨rest, by simp⟩
  have hfails := hbefore other hmem
  rw [hbegins] at hfails
  cases hfails

/-- **A token that the lexer finds is spelled as one.** -/
theorem lexeme_spelled {c : Char} {cs : List Char} {kind : Token.Kind} {more : Nat}
    (h : lexeme c cs = .ok (kind, more)) : kind.Spelled (c :: cs.take more) (cs.drop more) := by
  obtain ⟨hmark, rfl⟩ | ⟨rfl, contents, rfl, hquoted⟩ | ⟨hdigit, rfl, rfl⟩ | ⟨hword, rfl, rfl⟩ |
    ⟨op, hop, rfl, rfl⟩ := lexeme_cases h
  · simp only [marks, List.mem_cons, Prod.mk.injEq, List.not_mem_nil, or_false] at hmark
    rcases hmark with ⟨rfl, rfl⟩ | ⟨rfl, rfl⟩ | ⟨rfl, rfl⟩ | ⟨rfl, rfl⟩ | ⟨rfl, rfl⟩ <;> rfl
  · obtain ⟨inside, new, rest, rfl, hinside, rfl, rfl⟩ := quotedText_ok hquoted
    refine ⟨inside, ?_, by simpa using hinside⟩
    rw [Nat.zero_add, List.take_length_add_append, List.take_one, List.head?_cons,
      Option.toList_some]
  · exact ⟨String.toList_ofList.symm,
      ⟨c, _, String.toList_ofList, hdigit, isNumberTail_take cs⟩, numberTail_bounded cs⟩
  · refine ofWord_spelled hword (fun d hd => ?_) (head?_drop_takeWhile isWordChar cs)
    rw [take_length_takeWhile] at hd
    exact List.mem_takeWhile_imp hd
  · obtain ⟨after, hafter⟩ := List.isPrefixOf_iff_prefix.mp
      (List.find?_some (p := fun op : Operator => op.symbol.toList.isPrefixOf (c :: cs)) hop)
    obtain ⟨d, ds, hsymbol, hlength, -⟩ := symbol_head op
    obtain ⟨rfl, rfl⟩ : d = c ∧ ds ++ after = cs := by
      rw [hsymbol] at hafter
      exact List.cons.inj hafter
    rw [hlength, List.take_left, List.drop_left, ← hsymbol]
    exact ⟨rfl, fun e he other => readFrom?_longest hop hafter.symm he⟩

theorem IsName.newline_notMem {name : String} (h : IsName name) : '\n' ∉ name.toList := by
  obtain ⟨⟨c, cs, hname, hc, hcs⟩, -⟩ := h
  rw [hname, List.mem_cons, not_or]
  refine ⟨?_, fun hmem => absurd (hcs _ hmem) (by decide +kernel)⟩
  rintro rfl
  exact absurd hc (by decide)

theorem IsNumber.newline_notMem {digits : String} (h : IsNumber digits) :
    '\n' ∉ digits.toList := by
  have hdigit : ¬ '\n'.isDigit = true := by decide
  obtain ⟨c, cs, hdigits, hc, whole, fraction, rfl, hwhole, hfraction⟩ := h
  rw [hdigits, List.mem_cons, List.mem_append, not_or, not_or]
  refine ⟨?_, fun hmem => hdigit (hwhole _ hmem), ?_⟩
  · rintro rfl
    exact hdigit hc
  · rcases hfraction with rfl | ⟨d, ds, rfl, hds⟩
    · exact List.not_mem_nil
    · exact List.not_mem_cons_of_ne_of_not_mem (by decide) fun hmem => hdigit (hds _ hmem)

theorem Token.Kind.Spelled.newline {kind : Token.Kind} {cs after : List Char}
    (h : kind.Spelled cs after) (hmem : '\n' ∈ cs) : kind = .newline ∧ cs = ['\n'] := by
  cases kind with
  | identifier name => obtain ⟨rfl, hname, -⟩ := h; exact absurd hmem hname.newline_notMem
  | number digits => obtain ⟨rfl, hnumber, -⟩ := h; exact absurd hmem hnumber.newline_notMem
  | text contents =>
    obtain ⟨inside, rfl, hinside⟩ := h
    simp [hinside.newline_notMem] at hmem
  | boolean value => cases value <;> (obtain ⟨rfl, -⟩ := h; exact absurd hmem (by decide))
  | null => obtain ⟨rfl, -⟩ := h; exact absurd hmem (by decide)
  | operator op => obtain ⟨rfl, -⟩ := h; cases op <;> exact absurd hmem (by decide)
  | openParen | closeParen | comma | dot => obtain rfl := h; exact absurd hmem (by decide)
  | newline => exact ⟨rfl, h⟩
  | finish => obtain ⟨rfl, -⟩ := h; cases hmem

/-! ### Faults -/

/-- **Why no token can be found.** A text is open at the end of its line, a backslash in a text
begins no escape, or no token begins with the character. -/
def Fault.ShownBy (fault : Fault) (cs : List Char) : Prop :=
  match fault with
  | unterminatedString => ∃ rest, cs = '"' :: rest ∧ Unclosed rest
  | invalidEscape => NoEscape cs
  | unexpectedCharacter c => ∃ rest, cs = c :: rest ∧ c ≠ '"' ∧ c.isDigit = false ∧
      startsWord c = false ∧ (∀ mark ∈ marks, c ≠ mark.1) ∧
      ∀ op : Operator, ¬ op.symbol.toList <+: cs
  | _ => False

theorem Fault.ShownBy.ne_nil {fault : Fault} {cs : List Char} (h : fault.ShownBy cs) :
    cs ≠ [] := by
  rintro rfl
  cases fault with
  | unterminatedString | invalidEscape | unexpectedCharacter => obtain ⟨_, hnil, -⟩ := h; cases hnil
  | _ => exact h

/-- **Where the lexer finds no token, the characters show why.** -/
theorem lexeme_shown {c : Char} {cs : List Char} {fault : Fault} {ahead : Nat}
    (h : lexeme c cs = .error (fault, ahead)) : fault.ShownBy ((c :: cs).drop ahead) := by
  unfold lexeme at h
  split_ifs at h with hnewline hopen hclose hcomma hdot hquote hdigit hword
  · subst hquote
    cases hq : quotedText 0 [] cs with
    | ok q => rw [hq] at h; cases h
    | error e =>
      rw [hq] at h
      cases h
      rcases quotedText_error hq with ⟨rfl, rfl, hopen⟩ |
        ⟨rfl, inside, contents, rest, rfl, -, hrest, rfl⟩
      · exact ⟨cs, rfl, hopen⟩
      · rw [Nat.zero_add, List.drop_succ_cons, List.drop_left]
        exact hrest
  · split at h
    · cases h
    · next hnone =>
      cases h
      refine ⟨cs, rfl, hquote, Bool.eq_false_iff.mpr hdigit, Bool.eq_false_iff.mpr hword, ?_,
        fun op hop => ?_⟩
      · simp [marks, hnewline, hopen, hclose, hcomma, hdot]
      · exact List.find?_eq_none.mp hnone op op.mem_all (List.isPrefixOf_iff_prefix.mpr hop)

end LanguageServer.Script
