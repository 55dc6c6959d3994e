import LanguageServer.Proofs.Script.Cut
import LanguageServer.Proofs.Script.Lookahead

/-! # Spacing does not count

White space put in before a token goes to the gap before it, even if a comment ends there. So the
tokens before it stay, and it and all later ones move on; and the parser, which uses the places of
tokens only for those of nodes and errors, does the same, up to places.

* `gap_inserted`, `scan_inserted`: the lexer in front of the token;
* `tokens_inserted`: the tokens of the text;
* `Relocation.insert`: where the tokens go, which is where the nodes go;
* `parse_inserted`: programs and texts that are none. -/

namespace LanguageServer.Script

open Token (gap scan lexeme isSpacing)

/-! ### White space before a token -/

theorem gap_append {w : List Char} (hw : ∀ c ∈ w, isSpacing c = true) (cs : List Char) :
    gap (w ++ cs) = w.length + gap cs := by
  induction w with
  | nil => simp
  | cons c w ih =>
    obtain ⟨hc, hw⟩ := List.forall_mem_cons.mp hw
    rw [List.cons_append, gap_spacing hc, ih hw, List.length_cons]
    omega

theorem inLine_of_isSpacing {c : Char} (h : isSpacing c = true) : Token.inLine c = true :=
  (Bool.and_eq_true_iff.mp h).2

/-- **White space at the end of a gap goes to the gap.** -/
theorem gap_inserted {w : List Char} (hw : ∀ c ∈ w, isSpacing c = true) (cs : List Char) :
    gap (cs.take (gap cs) ++ (w ++ cs.drop (gap cs))) = gap cs + w.length := by
  induction cs with
  | nil => simpa [gap] using gap_append hw []
  | cons c cs ih =>
    rcases gap_cases c cs with ⟨hc, hgap⟩ | ⟨comment, rfl, rfl⟩ | ⟨hc, hcomment, hgap⟩
    · rw [hgap, List.take_succ_cons, List.drop_succ_cons, List.cons_append, gap_spacing hc, ih]
      omega
    · have hend : (w ++ comment.drop (comment.takeWhile Token.inLine).length).takeWhile
          Token.inLine = w := takeWhile_exact (fun d hd => inLine_of_isSpacing (hw d hd))
            (head?_drop_takeWhile Token.inLine comment)
      rw [gap_comment, List.take_succ_cons, List.take_succ_cons, take_length_takeWhile,
        List.drop_succ_cons, List.drop_succ_cons, List.cons_append, List.cons_append, gap_comment,
        List.takeWhile_append_of_pos fun d hd => List.mem_takeWhile_imp hd, hend,
        List.length_append]
      omega
    · rw [hgap, List.take_zero, List.nil_append, List.drop_zero, gap_append hw, hgap]
      omega

theorem scan_inserted {w : List Char} (hw : ∀ c ∈ w, isSpacing c = true) (pos : Nat)
    (cs : List Char) (read : List Token) :
    scan pos (cs.take (gap cs) ++ (w ++ cs.drop (gap cs))) read =
      scan (pos + w.length) cs read := by
  have hdrop : (cs.take (gap cs) ++ (w ++ cs.drop (gap cs))).drop (gap cs + w.length) =
      cs.drop (gap cs) := by
    rw [← List.append_assoc, List.drop_left']
    rw [List.length_append, List.length_take_of_le (gap_le_length cs)]
  have hpos : pos + (gap cs + w.length) = pos + w.length + gap cs := by omega
  rw [scan_eq, scan_eq (pos + w.length), gap_inserted hw, hdrop, hpos]

/-! ### Tokens -/

/-- The text with `w` put in before the character at `i`. -/
def inserted (text : String) (i : Nat) (w : String) : String :=
  String.ofList (text.toList.take i ++ (w.toList ++ text.toList.drop i))

theorem start_of_scan {pos : Nat} {cs : List Char} {read after : List Token} {t : Token}
    (h : scan pos cs read = .ok (read.reverse ++ t :: after)) :
    t.span.start = pos + gap cs := by
  cases hdrop : cs.drop (gap cs) with
  | nil =>
    rw [scan_finish hdrop] at h
    obtain ⟨rfl, -⟩ := List.cons.inj (List.append_cancel_left (Except.ok.inj h))
    rfl
  | cons c behind =>
    cases hlexeme : lexeme c behind with
    | error e => rw [scan_fault hdrop hlexeme] at h; cases h
    | ok token =>
      rw [scan_step hdrop hlexeme] at h
      obtain ⟨found, hfound⟩ := scan_prefix h
      rw [List.reverse_cons, List.append_assoc] at hfound
      obtain ⟨rfl, -⟩ := List.cons.inj (List.append_cancel_left hfound)
      rfl

section Tokens
variable {text w : String} {before after : List Token} {t : Token}

/-- **White space put in before a token** moves it and all later ones on. -/
theorem tokens_inserted (h : tokens text = .ok (before ++ t :: after)) (hne : w ≠ "")
    (hw : ∀ c ∈ w.toList, isSpacing c = true) :
    tokens (inserted text t.span.start w) =
      .ok (before ++ (t :: after).map (Token.move (.shift w.length))) := by
  have hcut := tokens_cut h
  have hscan := hcut.whole.symm.trans h
  have hstart : t.span.start = lastStop before + gap (text.toList.drop (lastStop before)) :=
    start_of_scan (hscan.trans (by rw [List.reverse_reverse]))
  obtain ⟨d, ws, hds⟩ := List.exists_cons_of_ne_nil (mt String.toList_eq_nil_iff.mp hne)
  have hd : Text.isBlank d = true := (Bool.and_eq_true_iff.mp (hw d (by simp [hds]))).1
  have hspaced := hcut.cut (gap (text.toList.drop (lastStop before))) d
    (ws ++ text.toList.drop t.span.start) hd
  rw [← hstart, ← List.cons_append, ← hds, hstart, ← List.drop_drop, scan_inserted hw] at hspaced
  -- the same tokens behind the gap, moved
  have hmove := scan_move w.length (lastStop before) (text.toList.drop (lastStop before)) []
  rw [scan_read, List.reverse_reverse] at hscan
  rw [scan_read _ _ before.reverse, List.reverse_reverse, String.length_toList] at hspaced
  rw [List.map_nil] at hmove
  rcases hmove with ⟨e, -, he, -⟩ | ⟨ts, hts, hmoved⟩
  · rw [he] at hscan
    cases hscan
  · rw [hts] at hscan
    obtain rfl : ts = t :: after := List.append_cancel_left (Except.ok.inj hscan)
    rw [hmoved] at hspaced
    rw [tokens, inserted, String.toList_ofList, hstart, ← List.drop_drop, hspaced]
    rfl

end Tokens

/-! ### Nodes and errors -/

/-- `n` characters are put in at offset `p`: what begins there or behind moves on, and so does what
ends behind it. -/
def Relocation.insert (p n : Nat) : Relocation where
  start i := if i < p then i else i + n
  stop i := if i ≤ p then i else i + n
  start_mono i j h := by simp only; split_ifs <;> omega
  stop_mono i j h := by simp only; split_ifs <;> omega

@[simp] theorem Expr.shape_move (ρ : Relocation) (e : Expr) : (e.move ρ).shape = e.shape := by
  induction e using Expr.induction_children with
  | h e ih =>
    cases e with
    | identifier | number | text | boolean | null => rfl
    | unary op operand s => rw [move, shape, shape, ih operand (by simp [children])]
    | binary left op right s =>
      rw [move, shape, shape, ih left (by simp [children]), ih right (by simp [children])]
    | call callee arguments s =>
      rw [move, shape, shape, moveAll_eq_map, shapes_eq_map, shapes_eq_map, List.map_map]
      exact congrArg _ (List.map_congr_left ih)
    | block statements s =>
      rw [move, shape, shape, moveAll_eq_map, shapes_eq_map, shapes_eq_map, List.map_map]
      exact congrArg _ (List.map_congr_left ih)

/-- The token where it stands when `n` characters are put in at offset `p`. -/
def Token.insert (p n : Nat) (u : Token) : Token :=
  if u.span.start < p then u else u.move (.shift n)

theorem Token.kind_insert (p n : Nat) (u : Token) : (u.insert p n).kind = u.kind := by
  unfold Token.insert
  split_ifs <;> rfl

theorem Token.start_insert (p n : Nat) (u : Token) : (u.insert p n).span.start =
    if u.span.start < p then u.span.start else u.span.start + n := by
  unfold Token.insert
  split_ifs <;> rfl

section Places
variable {text : String} {before after : List Token} {t : Token}
  (h : tokens text = .ok (before ++ t :: after))

include h

/-- Where the tokens stand behind and in front of the `n` characters put in. -/
theorem map_insert (n : Nat) :
    (before ++ t :: after).map (Token.insert t.span.start n) =
      before ++ (t :: after).map (Token.move (.shift n)) := by
  rw [List.map_append]
  congr 1
  · refine (List.map_congr_left fun u hu => ?_).trans (List.map_id before)
    have := stop_le_of_mem_before h hu
    exact if_pos (by omega)
  · exact List.map_congr_left fun u hu => if_neg (Nat.not_lt.mpr (start_le_of_mem_after h hu))

/-- **Tokens go where nodes go.** -/
theorem move_insert (n : Nat) {u : Token} (hu : u ∈ before ++ t :: after) (hne : u.kind ≠ .finish) :
    u.move (.insert t.span.start n) = u.insert t.span.start n := by
  unfold Token.insert
  rcases List.mem_append.mp hu with hu | hu
  · have hplace := stop_le_of_mem_before h hu
    have hstart : u.span.start < t.span.start := by omega
    rw [if_pos hstart]
    simp only [Token.move, Span.move, Relocation.insert, if_pos hstart, if_pos hplace.2]
  · have hstart := start_le_of_mem_after h hu
    have hpos := (tokens_ordered h).pos u (List.mem_append_right _ hu) hne
    rw [if_neg (by omega)]
    simp only [Token.move, Span.move, Relocation.insert, Relocation.shift]
    rw [if_neg (by omega), if_neg (by omega)]

end Places

/-- **Spacing does not count.** White space put in before a token of a text moves it and all later
ones on and leaves those before it. The text is a program if it was one, with the same expressions
at other places; and if it was none, it is none for the same reason, which shows at the same
token. -/
theorem parse_inserted {text w : String} {before after : List Token} {t : Token}
    (h : tokens text = .ok (before ++ t :: after)) (hne : w ≠ "")
    (hw : ∀ c ∈ w.toList, isSpacing c = true) :
    tokens (inserted text t.span.start w) =
        .ok (before ++ (t :: after).map (Token.move (.shift w.length))) ∧
      ((∃ e, parse text = .ok e ∧ ∃ e', parse (inserted text t.span.start w) = .ok e' ∧
          e'.shape = e.shape) ∨
        ∃ why offset, parse text = .error ⟨why, offset⟩ ∧
          parse (inserted text t.span.start w) =
            .error ⟨why, if offset < t.span.start then offset else offset + w.length⟩) := by
  have hinserted := tokens_inserted h hne hw
  refine ⟨hinserted, ?_⟩
  obtain ⟨front, u, behind, result, hts, hfront, hdecides⟩ := statements_settled (tokens_finished h)
  have hmoved : tokens (inserted text t.span.start w) =
      .ok (movedBefore (.insert t.span.start w.length)
        (u.insert t.span.start w.length :: behind.map (Token.insert t.span.start w.length))
        front) := by
    rw [hinserted, ← map_insert h, hts, List.map_append, List.map_cons, movedBefore,
      List.map_congr_left fun v hv => move_insert h w.length (by simp [hts, hv]) (hfront v hv)]
  have hparse := hdecides.parse_eq (h.trans (congrArg _ hts))
  have hparse' := hdecides.parse_moved (u.kind_insert _ _) hmoved
  cases result with
  | ok es => exact Or.inl ⟨_, hparse, _, hparse', by simp [Expr.shape, Expr.shapes_eq_map]⟩
  | error why =>
    refine Or.inr ⟨why, u.span.start, hparse, hparse'.trans ?_⟩
    rw [Token.start_insert]
    rfl

/-- White space before the end of a line goes to the comment that stands there, and the complaint
about the line end moves on with it. -/
theorem parse_inserted_comment :
    let front : List Token := [⟨.identifier "f", ⟨0, 1⟩⟩, ⟨.openParen, ⟨1, 2⟩⟩]
    tokens "f( //\n" = .ok (front ++ ⟨.newline, ⟨5, 6⟩⟩ :: [⟨.finish, ⟨6, 6⟩⟩]) ∧
      "\t " ≠ "" ∧ (∀ c ∈ "\t ".toList, isSpacing c = true) ∧
      tokens (inserted "f( //\n" 5 "\t ") =
        .ok (front ++ ⟨.newline, ⟨7, 8⟩⟩ :: [⟨.finish, ⟨8, 8⟩⟩]) ∧
      parse "f( //\n" = .error ⟨.expectedExpression, 5⟩ ∧
      parse (inserted "f( //\n" 5 "\t ") = .error ⟨.expectedExpression, 7⟩ := by
  intro front
  have htokens : tokens "f( //\n" = .ok (front ++ ⟨.newline, ⟨5, 6⟩⟩ :: [⟨.finish, ⟨6, 6⟩⟩]) := by
    with_unfolding_all rfl
  have hparse : parse "f( //\n" = .error ⟨.expectedExpression, 5⟩ := by with_unfolding_all rfl
  have hne : "\t " ≠ "" := by decide
  have hspacing : ∀ c ∈ "\t ".toList, isSpacing c = true := List.all_eq_true.mp rfl
  obtain ⟨hmoved, hboth⟩ := parse_inserted htokens hne hspacing
  refine ⟨htokens, hne, hspacing, hmoved, hparse, ?_⟩
  rcases hboth with ⟨e, he, -⟩ | ⟨why, offset, he, he'⟩
  · cases he.symm.trans hparse
  · cases he.symm.trans hparse
    exact he'

end LanguageServer.Script
