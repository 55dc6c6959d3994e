import LanguageServer.Proofs.Script.Layout
import LanguageServer.Proofs.Script.LineStatements
import LanguageServer.Proofs.Script.LineTokens
import LanguageServer.Proofs.Script.Tiling
import LanguageServer.Text.Pieces

/-! # Programs line by line

A text is a program if each of its lines is one, and its statements are those of its lines, each
moved to where its line stands. So no statement crosses the end of a line, and no node but the root
holds one.

* `parse_append_newline`: two texts with a line end between them;
* `children_length_le_one`: one line;
* `parsed_joined`, `newline_not_held`: several lines, by induction on them;
* `parse_linewise`: the lines of a text. -/

namespace LanguageServer.Script

/-! ### Two texts -/

/-- **Two texts with a line end between them** are a program if both are, and its statements are
those of the first and those of the second, moved behind the line end. -/
theorem parse_append_newline (a b : String) :
    (∃ es fs, parse a = .ok (.block es ⟨0, a.length⟩) ∧ parse b = .ok (.block fs ⟨0, b.length⟩) ∧
      parse (a ++ "\n" ++ b) =
        .ok (.block (es ++ fs.map (Expr.move (.shift (a.length + 1))))
          ⟨0, (a ++ "\n" ++ b).length⟩)) ∨
    ((∃ e, parse a = .error e) ∨ ∃ e, parse b = .error e) ∧
      ∃ e, parse (a ++ "\n" ++ b) = .error e := by
  rcases tokens_append_newline a b with ⟨ta, span, tb, hta, htb, hboth⟩ | ⟨hfail, e, hboth⟩
  · obtain ⟨tb, span', rfl, hall⟩ := tokens_finished htb
    have hmoved : List.map (Token.move (.shift (a.length + 1))) (tb ++ [⟨.finish, span'⟩]) =
        movedBefore (.shift (a.length + 1)) [⟨.finish, span'.move (.shift (a.length + 1))⟩] tb := by
      rw [List.map_append]
      rfl
    rw [hmoved] at hboth
    rcases lines_cases ta (unfinished_of_tokens hta) with ⟨es, hes⟩ | hfail
    · rcases lines_cases tb hall with ⟨fs, hfs⟩ | hfail
      · refine Or.inl ⟨es, fs, parse_eq_ok hta (hes.statements_finish [] span []),
          parse_eq_ok htb (hfs.statements_finish [] span' []), parse_eq_ok hboth ?_⟩
        rw [hes.statements_newline, hfs.finish]
        simp
      · obtain ⟨e, he⟩ := hfail.statements [] (.finish span' [])
        refine Or.inr ⟨Or.inr ⟨e, parse_eq_error htb he⟩, ?_⟩
        obtain ⟨e', he'⟩ := hfail (.shift (a.length + 1)) (es.reverse ++ []) _ (.finish _ [])
        exact ⟨e', parse_eq_error hboth ((hes.statements_newline [] _ _).trans he')⟩
    · obtain ⟨e, he⟩ := hfail.statements [] (.finish span [])
      obtain ⟨e', he'⟩ := hfail.statements [] (.newline _ _)
      exact Or.inr ⟨Or.inl ⟨e, parse_eq_error hta he⟩, e', parse_eq_error hboth he'⟩
  · refine Or.inr ⟨?_, e, parse_eq_error_of_tokens hboth⟩
    exact hfail.imp (fun ⟨e, he⟩ => ⟨e, parse_eq_error_of_tokens he⟩)
      fun ⟨e, he⟩ => ⟨e, parse_eq_error_of_tokens he⟩

section Two
variable {a b : String}

theorem exists_parse_append_newline :
    (∃ e, parse (a ++ "\n" ++ b) = .ok e) ↔ (∃ e, parse a = .ok e) ∧ ∃ e, parse b = .ok e := by
  rcases parse_append_newline a b with ⟨es, fs, ha, hb, hboth⟩ | ⟨hfail, e', hboth⟩
  · exact iff_of_true ⟨_, hboth⟩ ⟨⟨_, ha⟩, _, hb⟩
  · refine iff_of_false ?_ ?_
    · rintro ⟨e, he⟩
      cases he.symm.trans hboth
    · rintro ⟨⟨ea, hea⟩, eb, heb⟩
      rcases hfail with ⟨e, he⟩ | ⟨e, he⟩
      · cases hea.symm.trans he
      · cases heb.symm.trans he

theorem parse_append_newline_eq {ea eb : Expr} (hea : parse a = .ok ea) (heb : parse b = .ok eb) :
    parse (a ++ "\n" ++ b) =
      .ok (.block (ea.children ++ eb.children.map (Expr.move (.shift (a.length + 1))))
        ⟨0, (a ++ "\n" ++ b).length⟩) := by
  rcases parse_append_newline a b with ⟨es, fs, ha, hb, hboth⟩ | ⟨⟨e, he⟩ | ⟨e, he⟩, -⟩
  · cases ha.symm.trans hea
    cases hb.symm.trans heb
    exact hboth
  · cases hea.symm.trans he
  · cases heb.symm.trans he

end Two

/-! ### One line -/

/-- **One line has at most one statement.** -/
theorem children_length_le_one {text : String} {e : Expr} (h : parse text = .ok e)
    (hline : '\n' ∉ text.toList) : e.children.length ≤ 1 := by
  obtain ⟨ts, es, hts, -, -⟩ := exists_of_parse_eq_ok h
  obtain ⟨front, span, rfl, hall⟩ := tokens_finished hts
  have htiled := tiled_of_tokens hts
  have hin : InLine front := by
    intro t ht
    obtain ⟨kind, span⟩ := t
    cases kind with
    | finish => exact absurd rfl (hall _ ht)
    | newline =>
      have hslice : Span.slice span text.toList = ['\n'] :=
        htiled.spelled _ (List.mem_append_left _ ht)
      have hmem : '\n' ∈ Span.slice span text.toList := by
        rw [hslice]
        exact List.mem_cons_self
      exact absurd (List.mem_of_mem_drop (List.mem_of_mem_take hmem)) hline
    | _ => rfl
  rcases line_cases hin with ⟨es, hlength, hes⟩ | hfail
  · rw [parse_eq_ok hts (hes.statements_finish [] span [])] at h
    cases h
    exact hlength
  · obtain ⟨e', he'⟩ := hfail.statements [] (.finish span [])
    rw [parse_eq_error hts he'] at h
    cases h

/-! ### Several lines -/

/-- The statements of lines: those of the first, and those of the others, moved behind it. -/
def placed : List (List Char) → List (List Expr) → List Expr
  | line :: lines, part :: parts =>
    part ++ (placed lines parts).map (Expr.move (.shift (line.length + 1)))
  | _, _ => []

/-- The text is a program with the statements. -/
def Parsed (cs : List Char) (es : List Expr) : Prop :=
  parse (String.ofList cs) = .ok (.block es ⟨0, cs.length⟩)

theorem Parsed.unique {cs : List Char} {es fs : List Expr} (h : Parsed cs es) (h' : Parsed cs fs) :
    es = fs := by
  have hsame := h.symm.trans h'
  cases hsame
  rfl

theorem parsed_of_parse {text : String} {e : Expr} (h : parse text = .ok e) :
    ∃ es, Parsed text.toList es ∧ e = .block es ⟨0, text.length⟩ := by
  obtain ⟨ts, es, -, -, rfl⟩ := exists_of_parse_eq_ok h
  refine ⟨es, ?_, rfl⟩
  rwa [Parsed, String.ofList_toList, String.length_toList]

theorem parsed_append_newline {cs ds : List Char} {es : List Expr} :
    Parsed (cs ++ '\n' :: ds) es ↔ ∃ fs gs, Parsed cs fs ∧ Parsed ds gs ∧
      es = fs ++ gs.map (Expr.move (.shift (cs.length + 1))) := by
  have htext : String.ofList cs ++ "\n" ++ String.ofList ds = String.ofList (cs ++ '\n' :: ds) := by
    apply String.toList_injective
    simp
  have hcases := parse_append_newline (String.ofList cs) (String.ofList ds)
  simp only [htext, String.length_ofList] at hcases
  rcases hcases with ⟨fs, gs, hfs, hgs, hboth⟩ | ⟨hfail, e, hboth⟩
  · constructor
    · exact fun h => ⟨fs, gs, hfs, hgs, Parsed.unique h hboth⟩
    · rintro ⟨fs', gs', hfs', hgs', rfl⟩
      rw [Parsed.unique hfs' hfs, Parsed.unique hgs' hgs]
      exact hboth
  · constructor
    · intro h
      cases h.symm.trans hboth
    · rintro ⟨fs, gs, hfs, hgs, -⟩
      rcases hfail with ⟨e, he⟩ | ⟨e, he⟩
      · cases hfs.symm.trans he
      · cases hgs.symm.trans he

/-- **Several lines** are a program if each of them is. -/
theorem parsed_joined {lines : List (List Char)} (hne : lines ≠ []) (es : List Expr) :
    Parsed (Text.joined '\n' lines) es ↔
      ∃ parts, List.Forall₂ Parsed lines parts ∧ es = placed lines parts := by
  induction lines generalizing es with
  | nil => exact absurd rfl hne
  | cons line rest ih =>
    cases rest with
    | nil =>
      constructor
      · exact fun h => ⟨[es], .cons h .nil, by simp [placed]⟩
      · rintro ⟨parts, hparts, rfl⟩
        cases hparts with
        | cons hpart hnil =>
          cases hnil
          simpa [placed, Text.joined] using hpart
    | cons next rest =>
      rw [Text.joined, parsed_append_newline]
      constructor
      · rintro ⟨fs, gs, hfs, hgs, rfl⟩
        obtain ⟨parts, hparts, rfl⟩ := (ih (List.cons_ne_nil _ _) gs).mp hgs
        exact ⟨fs :: parts, .cons hfs hparts, rfl⟩
      · rintro ⟨parts, hparts, rfl⟩
        cases hparts with
        | cons hpart hparts =>
          exact ⟨_, _, hpart, (ih (List.cons_ne_nil _ _) _).mpr ⟨_, hparts, rfl⟩, rfl⟩

/-- **No node of a program but the root holds the end of a line.** -/
theorem newline_not_held {lines : List (List Char)} (hlines : ∀ line ∈ lines, '\n' ∉ line)
    {es : List Expr} (h : Parsed (Text.joined '\n' lines) es) {s n : Expr} (hs : s ∈ es)
    (hn : n ∈ s.tree.preorder) {i : Nat} (hi : n.span.holds i = true) :
    (Text.joined '\n' lines)[i]? ≠ some '\n' := by
  have hline {cs : List Char} {i : Nat} (hmem : cs ∈ lines) : cs[i]? ≠ some '\n' :=
    fun hsome => hlines cs hmem (List.mem_of_getElem? hsome)
  induction lines generalizing es s n i with
  | nil => simp [Text.joined]
  | cons line rest ih =>
    cases rest with
    | nil => exact hline List.mem_cons_self
    | cons next rest =>
      rw [Text.joined] at h ⊢
      obtain ⟨fs, gs, hfs, hgs, rfl⟩ := parsed_append_newline.mp h
      rw [Span.holds_iff] at hi
      rcases List.mem_append.mp hs with hs | hs
      · obtain ⟨es, hblock, htidy, -, hstop⟩ := parse_tidy hfs
        obtain rfl := (Expr.block.inj hblock).1
        have hwithin := within_of_mem_preorder (htidy s hs) hn
        have hinside := hstop s hs
        rw [String.length_ofList] at hinside
        rw [List.getElem?_append_left (by omega)]
        exact hline List.mem_cons_self
      · obtain ⟨g, hg, rfl⟩ := List.mem_map.mp hs
        rw [Expr.preorder_move] at hn
        obtain ⟨m, hm, rfl⟩ := List.mem_map.mp hn
        rw [Expr.span_move] at hi
        obtain ⟨j, rfl⟩ : ∃ j, i = line.length + (j + 1) :=
          ⟨i - (line.length + 1), by simp only [Span.move, Relocation.shift] at hi; omega⟩
        have hj : m.span.holds j = true := by
          simp only [Span.move, Relocation.shift] at hi
          rw [Span.holds_iff]
          omega
        rw [List.getElem?_append_right (by omega), Nat.add_sub_cancel_left,
          List.getElem?_cons_succ]
        exact ih (fun line hmem => hlines line (List.mem_cons_of_mem _ hmem)) hgs hg hm hj
          fun hmem => hline (List.mem_cons_of_mem _ hmem)

/-! ### The lines of a text -/

theorem exists_parsed_iff (lines : List (List Char)) :
    (∃ parts, List.Forall₂ Parsed lines parts) ↔
      ∀ line ∈ lines, ∃ e, parse (String.ofList line) = .ok e := by
  induction lines with
  | nil => exact ⟨fun _ => by simp, fun _ => ⟨[], .nil⟩⟩
  | cons line lines ih =>
    rw [List.forall_mem_cons, ← ih]
    constructor
    · rintro ⟨_, _ | ⟨hpart, hparts⟩⟩
      exact ⟨⟨_, hpart⟩, _, hparts⟩
    · rintro ⟨⟨e, he⟩, parts, hparts⟩
      obtain ⟨part, hpart, -⟩ := parsed_of_parse he
      rw [String.toList_ofList] at hpart
      exact ⟨part :: parts, .cons hpart hparts⟩

theorem forall₂_length_le_one {lines : List (List Char)} (hlines : ∀ line ∈ lines, '\n' ∉ line)
    {parts : List (List Expr)} (h : List.Forall₂ Parsed lines parts) :
    List.Forall₂ (fun line part => Parsed line part ∧ part.length ≤ 1) lines parts := by
  induction h with
  | nil => exact .nil
  | cons hpart _ ih =>
    obtain ⟨hline, hlines⟩ := List.forall_mem_cons.mp hlines
    have hone := children_length_le_one hpart (by rwa [String.toList_ofList])
    exact .cons ⟨hpart, hone⟩ (ih hlines)

theorem parsed_pieces {cs : List Char} {es : List Expr} :
    Parsed cs es ↔ ∃ parts, List.Forall₂ Parsed (Text.pieces '\n' cs) parts ∧
      es = placed (Text.pieces '\n' cs) parts := by
  have hjoined := parsed_joined (Text.pieces_ne_nil '\n' cs) es
  rwa [Text.joined_pieces] at hjoined

theorem exists_parse_iff_pieces (text : String) :
    (∃ e, parse text = .ok e) ↔
      ∀ line ∈ Text.pieces '\n' text.toList, ∃ e, parse (String.ofList line) = .ok e := by
  rw [← exists_parsed_iff]
  constructor
  · rintro ⟨e, he⟩
    obtain ⟨es, hes, -⟩ := parsed_of_parse he
    obtain ⟨parts, hparts, -⟩ := parsed_pieces.mp hes
    exact ⟨parts, hparts⟩
  · rintro ⟨parts, hparts⟩
    have hparsed := parsed_pieces.mpr ⟨parts, hparts, rfl⟩
    rw [Parsed, String.ofList_toList] at hparsed
    exact ⟨_, hparsed⟩

/-- **Parsing is compositional over lines.** Two texts with a line end between them are a program if
and only if both are, and then its statements are those of the first and those of the second, every
span moved behind the line end. So a text is a program if and only if each of its lines is; every
line has at most one statement, which is moved to where the line stands; and no node but the root
holds the end of a line. -/
theorem parse_linewise :
    (∀ a b : String,
      ((∃ e, parse (a ++ "\n" ++ b) = .ok e) ↔ (∃ e, parse a = .ok e) ∧ ∃ e, parse b = .ok e) ∧
        ∀ ea eb, parse a = .ok ea → parse b = .ok eb →
          parse (a ++ "\n" ++ b) =
            .ok (.block (ea.children ++ eb.children.map (Expr.move (.shift (a.length + 1))))
              ⟨0, (a ++ "\n" ++ b).length⟩)) ∧
    ∀ text : String,
      ((∃ e, parse text = .ok e) ↔
        ∀ line ∈ Text.pieces '\n' text.toList, ∃ e, parse (String.ofList line) = .ok e) ∧
      ∀ e, parse text = .ok e →
        (∃ parts, List.Forall₂ (fun line part => Parsed line part ∧ part.length ≤ 1)
            (Text.pieces '\n' text.toList) parts ∧
          e.children = placed (Text.pieces '\n' text.toList) parts) ∧
        ∀ n ∈ e.tree.preorder.tail, ∀ i, n.span.holds i = true → text.toList[i]? ≠ some '\n' := by
  refine ⟨fun a b => ⟨exists_parse_append_newline, fun ea eb => parse_append_newline_eq⟩,
    fun text => ⟨exists_parse_iff_pieces text, fun e he => ?_⟩⟩
  have hlines : ∀ line ∈ Text.pieces '\n' text.toList, '\n' ∉ line := fun line hmem =>
    Text.not_mem_of_mem_pieces hmem
  obtain ⟨es, hes, rfl⟩ := parsed_of_parse he
  obtain ⟨parts, hparts, hplaced⟩ := parsed_pieces.mp hes
  refine ⟨⟨parts, forall₂_length_le_one hlines hparts, hplaced⟩, fun n hn i hi => ?_⟩
  rw [Expr.preorder_tree, List.tail_cons] at hn
  obtain ⟨s, hs, hn⟩ := List.mem_flatMap.mp hn
  rw [← Text.joined_pieces '\n' text.toList] at hes ⊢
  exact newline_not_held hlines hes hs hn hi

/-- A name, an empty line and a call. -/
theorem parse_linewise_call :
    let name : Expr := .identifier "a" ⟨0, 1⟩
    let call (start : Nat) : Expr :=
      .call ⟨"", "f"⟩ [.number "1" ⟨start + 2, start + 3⟩] ⟨start, start + 4⟩
    parse "a" = .ok (.block [name] ⟨0, 1⟩) ∧ parse "\nf(1)" = .ok (.block [call 1] ⟨0, 5⟩) ∧
      parse ("a" ++ "\n" ++ "\nf(1)") = .ok (.block [name, call 3] ⟨0, 7⟩) ∧
      ∀ i, (call 3).span.holds i = true → ("a" ++ "\n" ++ "\nf(1)").toList[i]? ≠ some '\n' := by
  intro name call
  have hname : parse "a" = .ok (.block [name] ⟨0, 1⟩) := by with_unfolding_all rfl
  have hcall : parse "\nf(1)" = .ok (.block [call 1] ⟨0, 5⟩) := by with_unfolding_all rfl
  have hboth : parse ("a" ++ "\n" ++ "\nf(1)") = .ok (.block [name, call 3] ⟨0, 7⟩) :=
    (parse_linewise.1 _ _).2 _ _ hname hcall
  have hmem : call 3 ∈ (Expr.block [name, call 3] ⟨0, 7⟩).tree.preorder.tail :=
    List.mem_cons_of_mem _ List.mem_cons_self
  exact ⟨hname, hcall, hboth, ((parse_linewise.2 _).2 _ hboth).2 _ hmem⟩

end LanguageServer.Script
