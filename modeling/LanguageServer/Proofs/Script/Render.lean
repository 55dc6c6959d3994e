import LanguageServer.Proofs.Script.Depth
import LanguageServer.Proofs.Script.Lexeme

/-! # Reading back what was rendered

The rendering of an expression is a phrase of its own: parentheses around every operator make it
primary, whatever stratum derived what was read first. `Rendered q` says that `q` is such a phrase:
the text of its shape, before something that ends it, is cut into its tokens.

* `Shape.render`, `Shape.texts`: the text depends on the shape alone, and which texts are quoted;
* `Derives.rendered`: by induction on the derivation, one lemma for each way to build a phrase;
* `parse_render`: the rendering of a program is read back, unless it nests too deep. -/

namespace LanguageServer.Script

/-! ### Rendering without places -/

namespace Shape

mutual

/-- The text of an expression. -/
def render : Shape → String
  | identifier name => name
  | number digits => digits
  | text contents => Text.quoted contents
  | boolean value => if value then "true" else "false"
  | null => "null"
  | unary op operand => "(" ++ op.symbol ++ operand.render ++ ")"
  | binary left op right => "(" ++ left.render ++ " " ++ op.symbol ++ " " ++ right.render ++ ")"
  | call callee arguments =>
    let scope := if callee.scope = "" then "" else callee.scope ++ "."
    scope ++ callee.name ++ "(" ++ ", ".intercalate (renderAll arguments) ++ ")"
  | block statements => "\n".intercalate (renderAll statements)

/-- The texts of expressions. -/
def renderAll : List Shape → List String
  | [] => []
  | s :: ss => s.render :: renderAll ss

end

mutual

/-- The contents of the string literals of an expression. -/
def texts : Shape → List String
  | text contents => [contents]
  | unary _ operand => operand.texts
  | binary left _ right => left.texts ++ right.texts
  | call _ arguments => textsAll arguments
  | block statements => textsAll statements
  | identifier _ | number _ | boolean _ | null => []

/-- The contents of the string literals of expressions. -/
def textsAll : List Shape → List String
  | [] => []
  | s :: ss => s.texts ++ textsAll ss

end

theorem renderAll_eq_map (ss : List Shape) : renderAll ss = ss.map render := by
  induction ss with
  | nil => rfl
  | cons s ss ih => simp [renderAll, ih]

theorem textsAll_eq_flatMap (ss : List Shape) : textsAll ss = ss.flatMap texts := by
  induction ss with
  | nil => rfl
  | cons s ss ih => simp [textsAll, ih]

end Shape

mutual

/-- **The text of an expression depends on its shape alone.** -/
theorem Expr.render_eq (e : Expr) : e.render = e.shape.render := by
  match e with
  | .identifier .. | .number .. | .text .. | .boolean .. | .null _ => rfl
  | .unary _ operand _ => rw [Expr.render, Expr.shape, Shape.render, operand.render_eq]
  | .binary left _ right _ =>
    rw [Expr.render, Expr.shape, Shape.render, left.render_eq, right.render_eq]
  | .call _ arguments _ => rw [Expr.render, Expr.shape, Shape.render, Expr.renderAll_eq arguments]
  | .block statements _ => rw [Expr.render, Expr.shape, Shape.render, Expr.renderAll_eq statements]

theorem Expr.renderAll_eq (es : List Expr) :
    Expr.renderAll es = Shape.renderAll (Expr.shapes es) := by
  match es with
  | [] => rfl
  | e :: es =>
    rw [Expr.renderAll, Expr.shapes, Shape.renderAll, e.render_eq, Expr.renderAll_eq es]

end

/-! ### Rendered phrases -/

/-- Nothing of what was rendered goes on with the characters. -/
def Closes (rest : List Char) : Prop := ∀ c ∈ rest.head?, c ∈ [' ', ')', ',', '\n']

theorem Closes.isWordChar {rest : List Char} (h : Closes rest) :
    ∀ c ∈ rest.head?, Token.isWordChar c = false := by
  intro c hc
  have hmem := h c hc
  simp only [List.mem_cons, List.not_mem_nil, or_false] at hmem
  rcases hmem with rfl | rfl | rfl | rfl <;> decide

theorem Closes.isDigit {rest : List Char} (h : Closes rest) :
    ∀ c ∈ rest.head?, c.isDigit = false ∧ c ≠ '.' := by
  intro c hc
  have hmem := h c hc
  simp only [List.mem_cons, List.not_mem_nil, or_false] at hmem
  rcases hmem with rfl | rfl | rfl | rfl <;> decide

theorem closes_cons {c : Char} (h : c ∈ [' ', ')', ',', '\n']) (cs : List Char) :
    Closes (c :: cs) := by
  intro d hd
  cases hd
  exact h

/-- The phrase is what the lexer makes of the text of its shape, and that text does not make another
operator of a sign before it. -/
structure Rendered (q : Phrase) : Prop where
  derives : Derives .primary q
  head_ne : ∃ c cs, q.shape.render.toList = c :: cs ∧ c ≠ '='
  cuts : ∀ rest, Closes rest → Cuts (q.shape.render.toList ++ rest) q.kinds rest

theorem Rendered.derives_at {q : Phrase} (h : Rendered q) (s : Stratum) : Derives s q :=
  h.derives.loosen (by cases s <;> decide)

theorem cuts_intercalate {sep : List Char} {k : Token.Kind}
    (hsep : ∀ cs, Cuts (sep ++ cs) [k] cs) (hcloses : ∀ cs, Closes (sep ++ cs))
    {qs : List Phrase} (h : ∀ q ∈ qs, Rendered q) {rest : List Char} (hrest : Closes rest) :
    Cuts (sep.intercalate (qs.map fun q => q.shape.render.toList) ++ rest)
      (List.intercalate [k] (qs.map Phrase.kinds)) rest := by
  induction qs with
  | nil => exact Cuts.refl rest
  | cons q qs ih =>
    have hq : Rendered q := h q (by simp)
    have hqs : ∀ q ∈ qs, Rendered q := fun q hq => h q (by simp [hq])
    cases qs with
    | nil => simpa using hq.cuts rest hrest
    | cons q' qs =>
      simp only [List.map_cons, List.intercalate_cons_cons, List.append_assoc] at ih ⊢
      exact (hq.cuts _ (hcloses _)).trans ((hsep _).trans (ih hqs))

/-! ### One lemma for each way to build a phrase -/

theorem rendered_identifier {name : String} (h : IsName name) :
    Rendered (.atom (.identifier name) (.identifier name)) where
  derives := .identifier name
  head_ne := by
    obtain ⟨⟨c, cs, hname, hc, -⟩, -⟩ := h
    refine ⟨c, cs, hname, ?_⟩
    rintro rfl
    exact absurd (startsWord_bounds hc).1 (by decide)
  cuts := fun _ hrest => cuts_name h hrest.isWordChar

theorem rendered_number {digits : String} (h : IsNumber digits) :
    Rendered (.atom (.number digits) (.number digits)) where
  derives := .number digits
  head_ne := by
    obtain ⟨c, cs, hdigits, hc, -⟩ := h
    refine ⟨c, cs, hdigits, ?_⟩
    rintro rfl
    cases hc
  cuts := fun _ hrest => cuts_number h hrest.isDigit

theorem rendered_text {contents : String} (h : ∀ c ∈ contents.toList, IsLegible c) :
    Rendered (.atom (.text contents) (.text contents)) where
  derives := .text contents
  head_ne := ⟨'"', _, String.toList_ofList, by decide⟩
  cuts := fun rest _ => cuts_text h rest

theorem rendered_boolean (value : Bool) :
    Rendered (.atom (.boolean value) (.boolean value)) where
  derives := .boolean value
  head_ne := by cases value <;> exact ⟨_, _, rfl, by decide⟩
  cuts := fun rest hrest => by
    cases value
    · exact cuts_word "false" rfl (by decide) (List.all_eq_true.mp (by decide)) hrest.isWordChar
    · exact cuts_word "true" rfl (by decide) (List.all_eq_true.mp (by decide)) hrest.isWordChar

theorem rendered_null : Rendered (.atom .null .null) where
  derives := .null
  head_ne := ⟨_, _, rfl, by decide⟩
  cuts := fun _ hrest =>
    cuts_word "null" rfl (by decide) (List.all_eq_true.mp (by decide)) hrest.isWordChar

theorem rendered_group {p : Phrase} (d : Derives .disjunction p) (cs : List Char)
    (htext : p.shape.render.toList = '(' :: (cs ++ [')']))
    (hcuts : ∀ rest, Closes rest → Cuts (cs ++ rest) p.kinds rest) : Rendered p.group where
  derives := .group d
  head_ne := ⟨'(', _, htext, by decide⟩
  cuts := fun rest _ => by
    have hopen : Cuts ('(' :: (cs ++ ')' :: rest)) [.openParen] (cs ++ ')' :: rest) :=
      cuts_mark (by decide) _
    have hclose : Cuts (')' :: rest) [.closeParen] rest :=
      cuts_mark (by decide) _
    have hinside := hcuts (')' :: rest) (closes_cons (by decide) rest)
    have htext' : p.group.shape.render.toList ++ rest = '(' :: (cs ++ ')' :: rest) := by
      rw [Phrase.group, htext]
      simp
    rw [htext']
    exact hopen.trans (hinside.trans hclose)

theorem rendered_sign {op : Operator} (hop : op ∈ [Operator.minus, .not]) {q : Phrase}
    (h : Rendered q) : Rendered (q.sign op).group := by
  have hsign : Derives .sign (q.sign op) := .sign hop (h.derives_at _)
  refine rendered_group (hsign.loosen (by decide)) (op.symbol.toList ++ q.shape.render.toList)
    (by simp [Phrase.sign, Shape.render]) fun rest hrest => ?_
  rw [List.append_assoc]
  refine (cuts_sign hop ?_).trans (h.cuts rest hrest)
  obtain ⟨c, cs, htext, hc⟩ := h.head_ne
  rw [htext]
  simpa using hc

theorem rendered_binary {s : Stratum} {op : Operator} {l r : Phrase} (hl : Rendered l)
    (hr : Rendered r) (d : Derives s (l.binary op r)) : Rendered (l.binary op r).group := by
  refine rendered_group (d.loosen (Nat.zero_le _))
    (l.shape.render.toList ++ ' ' :: (op.symbol.toList ++ ' ' :: r.shape.render.toList))
    (by simp [Phrase.binary, Shape.render]) fun rest hrest => ?_
  have hleft := hl.cuts (' ' :: (op.symbol.toList ++ ' ' :: (r.shape.render.toList ++ rest)))
    (closes_cons (by decide) _)
  simp only [List.append_assoc, List.cons_append]
  exact hleft.trans ((cuts_spaced op _).trans (hr.cuts rest hrest))

/-- The text that names the function of a call. -/
def Callee.spelling (callee : Callee) : String :=
  (if callee.scope = "" then "" else callee.scope ++ ".") ++ callee.name

theorem rendered_call {name : List Token.Kind} {callee : Callee} {qs : List Phrase}
    (d : Derives .primary (.call name callee qs)) (hqs : ∀ q ∈ qs, Rendered q)
    (hhead : ∃ c cs, callee.spelling.toList = c :: cs ∧ c ≠ '=')
    (hname : ∀ cs, Cuts (callee.spelling.toList ++ '(' :: cs) name ('(' :: cs)) :
    Rendered (.call name callee qs) := by
  have htext : (Phrase.call name callee qs).shape.render.toList = callee.spelling.toList ++
      '(' :: (List.intercalate [',', ' '] (qs.map fun q => q.shape.render.toList) ++ [')']) := by
    simp [Phrase.call, Shape.render, Shape.renderAll_eq_map, Callee.spelling,
      String.toList_intercalate, Function.comp_def]
  refine ⟨d, ?_, fun rest _ => ?_⟩
  · obtain ⟨c, cs, hcallee, hc⟩ := hhead
    exact ⟨c, _, by rw [htext, hcallee]; rfl, hc⟩
  · have hopen (cs : List Char) : Cuts ('(' :: cs) [.openParen] cs :=
      cuts_mark (by decide) cs
    have hclose : Cuts (')' :: rest) [.closeParen] rest :=
      cuts_mark (by decide) rest
    have hcomma (cs : List Char) : Cuts ([',', ' '] ++ cs) [.comma] cs :=
      (cuts_mark (by decide) _).trans (cuts_spacing (by decide) cs)
    have hargs := cuts_intercalate hcomma (fun cs => closes_cons (by decide) (' ' :: cs)) hqs
      (closes_cons (by decide : ')' ∈ _) rest)
    rw [htext]
    simp only [List.append_assoc, List.cons_append, List.nil_append]
    exact (hname _).trans ((hopen _).trans (hargs.trans hclose))

theorem cuts_name_before {name : String} (h : IsName name) {c : Char} (hc : c ∈ ['(', '.'])
    (cs : List Char) : Cuts (name.toList ++ c :: cs) [.identifier name] (c :: cs) := by
  refine cuts_name h fun d hd => ?_
  cases hd
  simp only [List.mem_cons, List.not_mem_nil, or_false] at hc
  rcases hc with rfl | rfl <;> decide

theorem rendered_global {name : String} (h : IsName name) {qs : List Phrase}
    (hqs : ∀ q ∈ qs, Rendered q) : Rendered (.call [.identifier name] ⟨"", name⟩ qs) := by
  have hspelling : (Callee.mk "" name).spelling = name := by simp [Callee.spelling]
  refine rendered_call (.call name fun q hq => (hqs q hq).derives_at _) hqs ?_ ?_
  · rw [hspelling]
    exact (rendered_identifier h).head_ne
  · rw [hspelling]
    exact cuts_name_before h (by decide)

theorem rendered_member {scope name : String} (hs : IsName scope) (hn : IsName name)
    {qs : List Phrase} (hqs : ∀ q ∈ qs, Rendered q) :
    Rendered (.call [.identifier scope, .dot, .identifier name] ⟨scope, name⟩ qs) := by
  obtain ⟨c, cs, htext, hc⟩ := (rendered_identifier hs).head_ne
  have hscope : scope ≠ "" := by
    rintro rfl
    cases htext
  have hspelling : (Callee.mk scope name).spelling.toList = scope.toList ++ '.' :: name.toList := by
    simp [Callee.spelling, hscope]
  refine rendered_call (.member scope name fun q hq => (hqs q hq).derives_at _) hqs
    ⟨c, cs ++ '.' :: name.toList, ?_, hc⟩ fun rest => ?_
  · rw [hspelling]
    exact congrArg (· ++ '.' :: name.toList) htext
  · have hdot : Cuts ('.' :: (name.toList ++ '(' :: rest)) [.dot] (name.toList ++ '(' :: rest) :=
      cuts_mark (by decide) _
    rw [hspelling, List.append_assoc, List.cons_append]
    exact (cuts_name_before hs (by decide) _).trans
      (hdot.trans (cuts_name_before hn (by decide) rest))

/-! ### What was read once -/

/-- Names and numbers of the phrase are spelled as such, and its string literals can be quoted. -/
def Phrase.Legible (p : Phrase) : Prop :=
  (∀ k ∈ p.kinds, k.Lexical) ∧ ∀ contents ∈ p.shape.texts, ∀ c ∈ contents.toList, IsLegible c

theorem Phrase.Legible.mono {p q : Phrase} (h : q.Legible) (hk : p.kinds ⊆ q.kinds)
    (ht : p.shape.texts ⊆ q.shape.texts) : p.Legible :=
  ⟨fun k hp => h.1 k (hk hp), fun contents hp => h.2 contents (ht hp)⟩

theorem Phrase.kinds_subset_separated {p : Phrase} {args : List Phrase} (h : p ∈ args) :
    p.kinds ⊆ separated args := by
  induction args with
  | nil => cases h
  | cons q args ih =>
    cases args with
    | nil =>
      obtain rfl := List.mem_singleton.mp h
      rw [separated_singleton]
      exact List.Subset.refl _
    | cons q' args =>
      rw [separated_cons]
      intro k hk
      rcases List.mem_cons.mp h with rfl | h
      · exact List.mem_append_left _ hk
      · exact List.mem_append_right _ (List.mem_cons_of_mem _ (ih h hk))

theorem Phrase.Legible.argument {name : List Token.Kind} {callee : Callee} {args : List Phrase}
    (h : (Phrase.call name callee args).Legible) {p : Phrase} (hp : p ∈ args) : p.Legible := by
  refine h.mono (fun k hk => ?_) fun contents ht => ?_
  · simp [Phrase.call, kinds_subset_separated hp hk]
  · rw [Phrase.call, Shape.texts, Shape.textsAll_eq_flatMap]
    exact List.mem_flatMap.mpr ⟨p.shape, List.mem_map_of_mem hp, ht⟩

theorem Phrase.Legible.left {l r : Phrase} {op : Operator} (h : (l.binary op r).Legible) :
    l.Legible :=
  h.mono (fun k hk => by simp [Phrase.binary, hk])
    fun contents ht => by simp [Phrase.binary, Shape.texts, ht]

theorem Phrase.Legible.right {l r : Phrase} {op : Operator} (h : (l.binary op r).Legible) :
    r.Legible :=
  h.mono (fun k hk => by simp [Phrase.binary, hk])
    fun contents ht => by simp [Phrase.binary, Shape.texts, ht]

theorem exists_rendered {ps : List Phrase}
    (h : ∀ p ∈ ps, ∃ q : Phrase, q.shape = p.shape ∧ Rendered q) :
    ∃ qs : List Phrase, qs.map Phrase.shape = ps.map Phrase.shape ∧ ∀ q ∈ qs, Rendered q := by
  induction ps with
  | nil => exact ⟨[], rfl, by simp⟩
  | cons p ps ih =>
    obtain ⟨q, hshape, hq⟩ := h p (by simp)
    obtain ⟨qs, hshapes, hqs⟩ := ih fun p hp => h p (by simp [hp])
    exact ⟨q :: qs, by simp [hshape, hshapes], List.forall_mem_cons.mpr ⟨hq, hqs⟩⟩

/-- **The text of what was read once is a phrase of the same shape.** -/
theorem Derives.rendered {s : Stratum} {p : Phrase} (d : Derives s p) (h : p.Legible) :
    ∃ q : Phrase, q.shape = p.shape ∧ Rendered q := by
  induction d with
  | identifier name =>
    have hname : IsName name := h.1 (.identifier name) (by simp [Phrase.atom])
    exact ⟨_, rfl, rendered_identifier hname⟩
  | number digits =>
    have hdigits : IsNumber digits := h.1 (.number digits) (by simp [Phrase.atom])
    exact ⟨_, rfl, rendered_number hdigits⟩
  | text contents =>
    exact ⟨_, rfl, rendered_text (h.2 contents (by simp [Phrase.atom, Shape.texts]))⟩
  | boolean value => exact ⟨_, rfl, rendered_boolean value⟩
  | null => exact ⟨_, rfl, rendered_null⟩
  | @group p _ ih =>
    exact ih (h.mono (fun k hk => by simp [Phrase.group, hk]) fun _ ht => ht)
  | @call name args _ ih =>
    obtain ⟨qs, hshapes, hqs⟩ := exists_rendered fun p hp => ih p hp (h.argument hp)
    have hname : IsName name := h.1 (.identifier name) (by simp [Phrase.call])
    exact ⟨_, by rw [Phrase.call, Phrase.call, hshapes], rendered_global hname hqs⟩
  | @member scope name args _ ih =>
    obtain ⟨qs, hshapes, hqs⟩ := exists_rendered fun p hp => ih p hp (h.argument hp)
    have hscope : IsName scope := h.1 (.identifier scope) (by simp [Phrase.call])
    have hname : IsName name := h.1 (.identifier name) (by simp [Phrase.call])
    exact ⟨_, by rw [Phrase.call, Phrase.call, hshapes], rendered_member hscope hname hqs⟩
  | @sign op p hop _ ih =>
    obtain ⟨q, hshape, hq⟩ :=
      ih (h.mono (fun k hk => by simp [Phrase.sign, hk]) fun _ ht => ht)
    exact ⟨_, by rw [Phrase.group, Phrase.sign, Phrase.sign, hshape], rendered_sign hop hq⟩
  | power _ _ ihl ihr =>
    obtain ⟨l', hleft, hl⟩ := ihl h.left
    obtain ⟨r', hright, hr⟩ := ihr h.right
    have d : Derives .power (l'.binary .power r') := .power (hl.derives_at _) (hr.derives_at _)
    exact ⟨_, by simp only [Phrase.group, Phrase.binary, hleft, hright], rendered_binary hl hr d⟩
  | @binary s op _ _ hop _ _ ihl ihr =>
    obtain ⟨l', hleft, hl⟩ := ihl h.left
    obtain ⟨r', hright, hr⟩ := ihr h.right
    have d : Derives s (l'.binary op r') := .binary hop (hl.derives_at _) (hr.derives_at _)
    exact ⟨_, by simp only [Phrase.group, Phrase.binary, hleft, hright], rendered_binary hl hr d⟩
  | tighter _ ih => exact ih h

/-! ### Whole texts -/

theorem program_lines {ps : List Phrase} (h : ∀ p ∈ ps, Derives .disjunction p) :
    Program (List.intercalate [.newline] (ps.map Phrase.kinds) ++ [.finish]) ps := by
  induction ps with
  | nil => exact .finish
  | cons p ps ih =>
    have hp : Derives .disjunction p := h p (by simp)
    have hps := ih fun p hp => h p (by simp [hp])
    cases ps with
    | nil => simpa using Program.last hp
    | cons q ps => simpa using Program.line hp hps

theorem Program.derives {ks : List Token.Kind} {ps : List Phrase} (h : Program ks ps) :
    ∀ p ∈ ps, Derives .disjunction p ∧ p.kinds ⊆ ks := by
  induction h with
  | finish => simp
  | newline _ ih =>
    exact fun p hp => ⟨(ih p hp).1, List.subset_cons_of_subset _ (ih p hp).2⟩
  | last d => simpa using d
  | line d _ ih =>
    refine List.forall_mem_cons.mpr ⟨⟨d, List.subset_append_left _ _⟩, fun q hq => ?_⟩
    exact ⟨(ih q hq).1, List.subset_append_of_subset_right _
      (List.subset_cons_of_subset _ (ih q hq).2)⟩

theorem parse_lines {qs : List Phrase} (h : ∀ q ∈ qs, Rendered q) {text : String}
    (htext : text = (Shape.block (qs.map Phrase.shape)).render) :
    GivesUp (parse text) ∨
      ∃ e, parse text = .ok e ∧ e.shape = .block (qs.map Phrase.shape) := by
  have hnewline (cs : List Char) : Cuts (['\n'] ++ cs) [.newline] cs := cuts_mark (by decide) cs
  have hend : Closes [] := by simp [Closes]
  have hcuts := cuts_intercalate hnewline (fun cs => closes_cons (by decide) cs) h hend
  have hchars : List.intercalate ['\n'] (qs.map fun q => q.shape.render.toList) ++ [] =
      text.toList := by
    simp [htext, Shape.render, Shape.renderAll_eq_map, String.toList_intercalate,
      Function.comp_def]
  rw [hchars] at hcuts
  obtain ⟨ts, hts, hkinds⟩ := tokens_of_cuts hcuts
  have hprogram := program_lines fun q hq => (h q hq).derives_at .disjunction
  rcases hprogram.reads_or_gives_up hkinds [] with ⟨offset, hdeep⟩ | ⟨es, hshapes, hread⟩
  · refine Or.inl ⟨offset, ?_⟩
    rw [parse, hts]
    simp only [hdeep]
    rfl
  · refine Or.inr ⟨.block es ⟨0, text.length⟩, ?_, by rw [Expr.shape, Expr.shapes_eq_map, hshapes]⟩
    rw [parse, hts]
    simp only [hread]
    rfl

/-- **Reading back what was rendered.** Let a text be a program whose string literals can be
quoted with the escapes that the lexer knows. Then the rendering of the program is a program of the
same shape, and renders to the same text; or it nests too deep, which is the only complaint. -/
theorem parse_render {text : String} {e : Expr} (hparse : parse text = .ok e)
    (hlegible : ∀ contents ∈ e.shape.texts, ∀ c ∈ contents.toList, IsLegible c) :
    (∃ offset, parse e.render = .error ⟨.nestedTooDeeply, offset⟩) ∨
      ∃ e', parse e.render = .ok e' ∧ e'.shape = e.shape ∧ e'.render = e.render := by
  obtain ⟨ts, es, hts, hst, rfl⟩ := exists_of_parse_eq_ok hparse
  obtain ⟨_, ps, rfl, hprogram, hshapes, -⟩ := statements_sound (tokens_finished hts) hst
  have hblock : (Expr.block es ⟨0, text.length⟩).shape = .block (ps.map Phrase.shape) := by
    rw [Expr.shape, Expr.shapes_eq_map, hshapes]
  rw [Expr.render_eq, hblock]
  rw [hblock] at hlegible
  -- every statement can be rendered, and so can all of them
  have hstatement : ∀ p ∈ ps, ∃ q : Phrase, q.shape = p.shape ∧ Rendered q := by
    intro p hp
    obtain ⟨d, hkinds⟩ := hprogram.derives p hp
    refine d.rendered ⟨fun k hk => ?_, fun contents hc => hlegible contents ?_⟩
    · obtain ⟨t, ht, rfl⟩ := List.mem_map.mp (hkinds hk)
      exact tokens_lexical hts t ht
    · rw [Shape.texts, Shape.textsAll_eq_flatMap]
      exact List.mem_flatMap.mpr ⟨p.shape, List.mem_map_of_mem hp, hc⟩
  obtain ⟨qs, hqs, hrendered⟩ := exists_rendered hstatement
  rw [← hqs]
  rcases parse_lines hrendered rfl with hdeep | ⟨e', he', hshape⟩
  · exact Or.inl hdeep
  · exact Or.inr ⟨e', he', hshape, by rw [Expr.render_eq, hshape]⟩

/-- Reading `m.f(-x, "a\n") // call` and what it renders to, `m.f((-x), "a\n")`. -/
theorem parse_render_call :
    let e : Expr := .block [.call ⟨"m", "f"⟩
      [.unary .minus (.identifier "x" ⟨5, 6⟩) ⟨4, 6⟩, .text "a\n" ⟨8, 13⟩] ⟨0, 14⟩] ⟨0, 22⟩
    parse "m.f(-x, \"a\\n\") // call" = .ok e ∧
      (∀ contents ∈ e.shape.texts, ∀ c ∈ contents.toList, IsLegible c) ∧
      ((∃ offset, parse e.render = .error ⟨.nestedTooDeeply, offset⟩) ∨
        ∃ e', parse e.render = .ok e' ∧ e'.shape = e.shape ∧ e'.render = e.render) := by
  intro e
  have hparse : parse "m.f(-x, \"a\\n\") // call" = .ok e := by with_unfolding_all rfl
  have hall : (e.shape.texts.all fun contents => contents.toList.all fun c => IsLegible c) = true :=
    by decide
  have hlegible : ∀ contents ∈ e.shape.texts, ∀ c ∈ contents.toList, IsLegible c := by
    simpa only [List.all_eq_true, decide_eq_true_eq] using hall
  exact ⟨hparse, hlegible, parse_render hparse hlegible⟩

end LanguageServer.Script
