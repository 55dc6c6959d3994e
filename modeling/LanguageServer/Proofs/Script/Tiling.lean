import LanguageServer.Proofs.Script.Extent
import LanguageServer.Proofs.Script.Spelling

/-! # The tokens tile the text

Behind each token the text goes on with a gap and the next token, so the tokens and the gaps between
them are the text. `Tiled cs ts` says so of the characters up to the end of the last token, and one
step of the lexer keeps it.

* `Tiled.concat`: one more token;
* `ScannedTo.ends`: the rest of a text, by induction on its length;
* `tokens_tile`: whole texts, with the tokens or without. -/

namespace LanguageServer.Script

open Token (gap scan lexeme)

/-! ### Pieces of a text -/

/-- The characters of the span. -/
def Span.slice (s : Span) (cs : List Char) : List Char := (cs.drop s.start).take s.width

section Pieces
variable {cs body after : List Char} {start : Nat}

theorem slice_of_drop (h : cs.drop start = body ++ after) :
    Span.slice ⟨start, start + body.length⟩ cs = body := by
  rw [Span.slice, Span.width, Nat.add_sub_cancel_left, h, List.take_left]

theorem drop_of_drop (h : cs.drop start = body ++ after) :
    cs.drop (start + body.length) = after := by
  rw [← List.drop_drop, h, List.drop_left]

theorem mem_of_getElem?_drop (h : cs.drop start = body ++ after) {c : Char} {i : Nat}
    (hle : start ≤ i) (hlt : i < start + body.length) (hi : cs[i]? = some c) : c ∈ body := by
  obtain ⟨k, rfl⟩ := Nat.exists_eq_add_of_le hle
  rw [← List.getElem?_drop, h, List.getElem?_append_left (by omega)] at hi
  exact List.mem_of_getElem? hi

end Pieces

/-- Where the last token ends; the start of the text if there is none. -/
def lastStop (ts : List Token) : Nat := (ts.getLast?.map fun t => t.span.stop).getD 0

@[simp] theorem lastStop_concat (ts : List Token) (t : Token) :
    lastStop (ts ++ [t]) = t.span.stop := by
  simp [lastStop]

/-! ### One more token -/

/-- **The tokens tile the characters** up to the end of the last token: they stand one after the
other, nothing that counts stands between them, the characters of each spell it, and every line end
is in one token, which is the line end. -/
structure Tiled (cs : List Char) (ts : List Token) : Prop where
  ordered : Ordered ts (lastStop ts)
  gaps : ∀ front t, front ++ [t] <+: ts →
    Filler (Span.slice ⟨lastStop front, t.span.start⟩ cs) (cs.drop t.span.start)
  spelled : ∀ t ∈ ts, t.kind.Spelled (t.span.slice cs) (cs.drop t.span.stop)
  newlines : ∀ i < lastStop ts, cs[i]? = some '\n' →
    ts.filter (fun t => t.span.holds i) = [⟨.newline, ⟨i, i + 1⟩⟩]

theorem tiled_nil (cs : List Char) : Tiled cs [] where
  ordered := ⟨List.Pairwise.nil, by simp, by simp⟩
  gaps front t h := by simp at h
  spelled := by simp
  newlines i hi := absurd hi (Nat.not_lt_zero i)

section Concat
variable {cs space body after : List Char} {ts : List Token} {kind : Token.Kind}

theorem newline_of_next {start i : Nat} (hspace : Filler space (body ++ after))
    (hbody : kind.Spelled body after) (hcs : cs.drop start = space ++ (body ++ after))
    (hle : start ≤ i) (hlt : i < start + space.length + body.length) (hi : cs[i]? = some '\n') :
    kind = .newline ∧ body.length = 1 ∧ i = start + space.length := by
  have hbehind : start + space.length ≤ i := by
    by_contra hbefore
    exact hspace.newline_notMem (mem_of_getElem?_drop hcs hle (by omega) hi)
  obtain ⟨rfl, rfl⟩ := hbody.newline (mem_of_getElem?_drop (drop_of_drop hcs) hbehind hlt hi)
  rw [List.length_singleton] at hlt
  exact ⟨rfl, rfl, by omega⟩

/-- **One more token,** behind a gap. -/
theorem Tiled.concat (h : Tiled cs ts) (hspace : Filler space (body ++ after))
    (hbody : kind.Spelled body after) (hpos : kind ≠ .finish → body ≠ [])
    (hcs : cs.drop (lastStop ts) = space ++ (body ++ after)) :
    Tiled cs (ts ++ [⟨kind, ⟨lastStop ts + space.length,
      lastStop ts + space.length + body.length⟩⟩]) := by
  have hdrop := drop_of_drop hcs
  refine ⟨?_, fun front t hfront => ?_, fun t ht => ?_, fun i hi hnewline => ?_⟩
  · rw [lastStop_concat]
    refine h.ordered.concat (Nat.le_add_right _ _) (fun hne => ?_) (Nat.le_refl _)
      (by simp only; omega)
    have := List.length_pos_iff.mpr (hpos hne)
    simp only
    omega
  · rcases List.prefix_concat_iff.mp hfront with hlast | hfront
    · obtain ⟨rfl, ht⟩ := List.append_inj' hlast rfl
      obtain rfl := List.singleton_inj.mp ht
      rw [slice_of_drop hcs, hdrop]
      exact hspace
    · exact h.gaps front t hfront
  · rcases List.mem_append.mp ht with ht | ht
    · exact h.spelled t ht
    · obtain rfl := List.mem_singleton.mp ht
      rw [slice_of_drop hdrop, drop_of_drop hdrop]
      exact hbody
  · rw [lastStop_concat] at hi
    rw [List.filter_append]
    by_cases hbefore : i < lastStop ts
    · rw [h.newlines i hbefore hnewline, List.filter_cons_of_neg, List.filter_nil, List.append_nil]
      rw [Span.holds_iff]
      simp only
      omega
    · obtain ⟨rfl, hone, rfl⟩ := newline_of_next hspace hbody hcs (by omega) hi hnewline
      rw [List.filter_eq_nil_iff.mpr fun t ht => ?_, List.nil_append, List.filter_cons_of_pos,
        List.filter_nil, hone]
      · rw [Span.holds_iff]
        simp only
        omega
      · have := h.ordered.le t ht
        rw [Span.holds_iff]
        omega

end Concat

/-! ### The whole text -/

section Scan
variable {cs rest : List Char} {read : List Token} {pos : Nat}

/-- The tokens read tile the characters up to `pos`, where the rest of them begins, and none of them
ends the text. -/
structure ScannedTo (cs : List Char) (pos : Nat) (rest : List Char) (read : List Token) : Prop where
  tiled : Tiled cs read.reverse
  stop : lastStop read.reverse = pos
  drop : cs.drop pos = rest
  length : pos + rest.length = cs.length
  unfinished : ∀ t ∈ read, t.kind ≠ .finish

theorem scannedTo_start (cs : List Char) : ScannedTo cs 0 cs [] :=
  ⟨tiled_nil cs, rfl, rfl, Nat.zero_add _, by simp⟩

theorem ScannedTo.drop_gap (h : ScannedTo cs pos rest read) {c : Char} {after : List Char}
    (hdrop : rest.drop (gap rest) = c :: after) : cs.drop (pos + gap rest) = c :: after := by
  rw [← List.drop_drop, h.drop, hdrop]

theorem ScannedTo.step (h : ScannedTo cs pos rest read) {c : Char} {after : List Char}
    {kind : Token.Kind} {more : Nat} (hdrop : rest.drop (gap rest) = c :: after)
    (hlexeme : lexeme c after = .ok (kind, more)) :
    ScannedTo cs (pos + gap rest + 1 + more) (after.drop more)
      (⟨kind, ⟨pos + gap rest, pos + gap rest + 1 + more⟩⟩ :: read) := by
  have hfront := h.drop_gap hdrop
  obtain ⟨htiled, hpos, hrest, hlength, hread⟩ := h
  have hmore := lexeme_le_length hlexeme
  have hafter := congrArg List.length hdrop
  simp only [List.length_drop, List.length_cons] at hafter
  have hbody : (c :: after.take more) ++ after.drop more = rest.drop (gap rest) := by
    rw [List.cons_append, List.take_append_drop, hdrop]
  have hcs : cs.drop (lastStop read.reverse) =
      rest.take (gap rest) ++ ((c :: after.take more) ++ after.drop more) := by
    rw [hpos, hrest, hbody, List.take_append_drop]
  have hstop : pos + gap rest + (after.take more).length.succ = pos + gap rest + 1 + more := by
    rw [List.length_take_of_le hmore]
    omega
  have hnext := htiled.concat (hbody ▸ filler_gap rest) (lexeme_spelled hlexeme)
    (fun _ => List.cons_ne_nil _ _) hcs
  rw [List.length_take_of_le (gap_le_length rest), List.length_cons, hpos, hstop,
    ← List.reverse_cons] at hnext
  refine ⟨hnext, by simp, ?_, ?_, List.forall_mem_cons.mpr ⟨lexeme_ne_finish hlexeme, hread⟩⟩
  · rw [Nat.add_assoc, ← List.drop_drop, hfront, Nat.add_comm 1, List.drop_succ_cons]
  · rw [List.length_drop]
    omega

theorem ScannedTo.finish (h : ScannedTo cs pos rest read) (hdrop : rest.drop (gap rest) = []) :
    pos + gap rest = cs.length ∧
      Tiled cs (read.reverse ++ [⟨.finish, ⟨cs.length, cs.length⟩⟩]) := by
  obtain ⟨htiled, hpos, hrest, hlength, -⟩ := h
  have hgap := gap_le_length rest
  have hall := List.drop_eq_nil_iff.mp hdrop
  have hend : pos + gap rest = cs.length := by omega
  have hcs : cs.drop (lastStop read.reverse) = rest.take (gap rest) ++ ([] ++ []) := by
    rw [hpos, hrest, List.append_nil, List.append_nil, List.take_of_length_le hall]
  have hspace := filler_gap rest
  rw [hdrop] at hspace
  have hbody : Token.Kind.finish.Spelled [] [] := ⟨rfl, rfl⟩
  have hfinish := htiled.concat hspace hbody (absurd rfl) hcs
  rw [List.length_take_of_le hgap, List.length_nil, Nat.add_zero, hpos, hend] at hfinish
  exact ⟨hend, hfinish⟩

/-- **The rest of a text:** it is tiled, or the characters where it cannot be show why. -/
theorem ScannedTo.ends (h : ScannedTo cs pos rest read) :
    (∃ front, scan pos rest read = .ok (front ++ [⟨.finish, ⟨cs.length, cs.length⟩⟩]) ∧
      (∀ t ∈ front, t.kind ≠ .finish) ∧
      Tiled cs (front ++ [⟨.finish, ⟨cs.length, cs.length⟩⟩])) ∨
    ∃ e, scan pos rest read = .error e ∧ e.offset < cs.length ∧
      e.fault.ShownBy (cs.drop e.offset) := by
  induction rest using scan_induction generalizing pos read with
  | finish rest hdrop =>
    obtain ⟨hend, htiled⟩ := h.finish hdrop
    rw [scan_finish hdrop, hend]
    exact Or.inl ⟨read.reverse, rfl, by simpa using h.unfinished, htiled⟩
  | fault rest c after fault ahead hdrop hlexeme =>
    have hshown := lexeme_shown hlexeme
    rw [← h.drop_gap hdrop, List.drop_drop] at hshown
    have hinside := hshown.ne_nil
    rw [Ne, List.drop_eq_nil_iff, Nat.not_le] at hinside
    exact Or.inr ⟨_, scan_fault hdrop hlexeme, hinside, hshown⟩
  | step rest c after kind more hdrop hlexeme ih =>
    rw [scan_step hdrop hlexeme]
    exact ih (h.step hdrop hlexeme)

end Scan

theorem tiled_of_tokens {text : String} {ts : List Token} (h : tokens text = .ok ts) :
    Tiled text.toList ts := by
  rcases (scannedTo_start text.toList).ends with ⟨front, hscan, -, htiled⟩ | ⟨e, hscan, -⟩
  · cases hscan.symm.trans h
    exact htiled
  · cases hscan.symm.trans h

/-- **Tokens tile the text.** The tokens of a text, the last and no other of which ends it, stand
one after the other; a gap of white space and comments stands before each, so that every line end is
one token; and each is spelled by its characters, as long as it can be. A text without tokens has a
character that shows why. -/
theorem tokens_tile (text : String) :
    (∃ front, tokens text = .ok (front ++ [⟨.finish, ⟨text.length, text.length⟩⟩]) ∧
      (∀ t ∈ front, t.kind ≠ .finish) ∧
      Tiled text.toList (front ++ [⟨.finish, ⟨text.length, text.length⟩⟩])) ∨
    ∃ e, tokens text = .error e ∧ e.offset < text.length ∧
      e.fault.ShownBy (text.toList.drop e.offset) := by
  have hends := (scannedTo_start text.toList).ends
  rwa [String.length_toList] at hends

end LanguageServer.Script
