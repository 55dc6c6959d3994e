import LanguageServer.Proofs.Script.Lexeme

/-! # Where tokens stand

The tokens of a text stand one after the other inside it, and all but the one that ends it have
characters of their own: `Ordered`. A lexeme never takes more characters than there are, nor does a
gap; so the scan, which counts them, stays inside the text.

* `gap_le_length`, `lexeme_le_length`: one step of the lexer;
* `tokens_ordered`: the whole text;
* `stop_le_of_mem_before`, `start_le_of_mem_after`: the tokens before and behind one of them. -/

namespace LanguageServer.Script

open Token (gap scan lexeme numberTail quotedText)

/-! ### One step of the lexer -/

theorem gap_le_length (cs : List Char) : gap cs ≤ cs.length := by
  unfold gap
  simp only
  have hblanks : (cs.takeWhile Token.isSpacing).length ≤ cs.length :=
    (List.takeWhile_prefix _).length_le
  split
  · next comment hdrop =>
    have hlength := congrArg List.length hdrop
    have hline : (comment.takeWhile Token.inLine).length ≤ comment.length :=
      (List.takeWhile_prefix _).length_le
    simp only [List.length_drop, List.length_cons] at hlength
    omega
  · exact hblanks

theorem numberTail_le_length (cs : List Char) : numberTail cs ≤ cs.length := by
  unfold numberTail
  simp only
  have hwhole : (cs.takeWhile Char.isDigit).length ≤ cs.length :=
    (List.takeWhile_prefix _).length_le
  split
  · next d fraction hdrop =>
    have hlength := congrArg List.length hdrop
    have hdigits : (fraction.takeWhile Char.isDigit).length ≤ fraction.length :=
      (List.takeWhile_prefix _).length_le
    simp only [List.length_drop, List.length_cons] at hlength
    split_ifs <;> omega
  · exact hwhole

theorem quotedText_le_length {width more : Nat} {read cs : List Char} {contents : String}
    (h : quotedText width read cs = .ok (contents, more)) : more ≤ width + cs.length := by
  fun_induction quotedText width read cs with
  | case1 => cases h
  | case2 => cases h
  | case3 => cases h; simp
  | case4 => cases h
  | case5 width read e cs c hc ih =>
    have := ih h
    simp only [List.length_cons]
    omega
  | case6 => cases h
  | case7 width read c cs _ _ _ _ ih =>
    have := ih h
    simp only [List.length_cons]
    omega

theorem readFrom?_le_length {c : Char} {cs : List Char} {op : Operator}
    (h : Operator.readFrom? (c :: cs) = some op) : op.symbol.length - 1 ≤ cs.length := by
  have hprefix : op.symbol.toList.isPrefixOf (c :: cs) = true :=
    List.find?_some (p := fun op : Operator => op.symbol.toList.isPrefixOf (c :: cs)) h
  have hle := (List.isPrefixOf_iff_prefix.mp hprefix).length_le
  rw [String.length_toList, List.length_cons] at hle
  omega

theorem lexeme_le_length {c : Char} {cs : List Char} {kind : Token.Kind} {more : Nat}
    (h : lexeme c cs = .ok (kind, more)) : more ≤ cs.length := by
  obtain ⟨-, rfl⟩ | ⟨-, contents, -, hquoted⟩ | ⟨-, -, rfl⟩ | ⟨-, -, rfl⟩ | ⟨op, hop, -, rfl⟩ :=
    lexeme_cases h
  · exact Nat.zero_le _
  · simpa using quotedText_le_length hquoted
  · exact numberTail_le_length cs
  · exact (List.takeWhile_prefix _).length_le
  · exact readFrom?_le_length hop

/-! ### The whole text -/

/-- The tokens stand one after the other among the first `size` characters, and all but those that
end a text have characters of their own. -/
structure Ordered (ts : List Token) (size : Nat) : Prop where
  apart : ts.Pairwise fun a b => a.span.stop ≤ b.span.start
  pos : ∀ t ∈ ts, t.kind ≠ .finish → t.span.start < t.span.stop
  le : ∀ t ∈ ts, t.span.stop ≤ size

theorem Ordered.sublist {ts us : List Token} {size : Nat} (h : Ordered ts size)
    (hsub : us.Sublist ts) : Ordered us size :=
  ⟨h.apart.sublist hsub, fun t ht => h.pos t (hsub.subset ht), fun t ht => h.le t (hsub.subset ht)⟩

theorem Ordered.concat {ts : List Token} {pos size : Nat} (h : Ordered ts pos) {t : Token}
    (hstart : pos ≤ t.span.start) (hpos : t.kind ≠ .finish → t.span.start < t.span.stop)
    (hstop : t.span.stop ≤ size) (hle : pos ≤ size) : Ordered (ts ++ [t]) size := by
  refine ⟨List.pairwise_append.mpr ⟨h.apart, List.pairwise_singleton _ _, ?_⟩, ?_, ?_⟩
  · intro a ha b hb
    obtain rfl := List.mem_singleton.mp hb
    exact Nat.le_trans (h.le a ha) hstart
  · intro a ha
    rcases List.mem_append.mp ha with ha | ha
    · exact h.pos a ha
    · obtain rfl := List.mem_singleton.mp ha
      exact hpos
  · intro a ha
    rcases List.mem_append.mp ha with ha | ha
    · exact Nat.le_trans (h.le a ha) hle
    · obtain rfl := List.mem_singleton.mp ha
      exact hstop

/-- The scan has counted the characters it has read, and read ordered tokens from them. -/
def Scanned (size pos : Nat) (cs : List Char) (read : List Token) : Prop :=
  pos + cs.length = size ∧ Ordered read.reverse pos

theorem Scanned.step {size pos : Nat} {cs : List Char} {read : List Token}
    (h : Scanned size pos cs read) {c : Char} {after : List Char} {kind : Token.Kind} {more : Nat}
    (hdrop : cs.drop (gap cs) = c :: after) (hlexeme : lexeme c after = .ok (kind, more)) :
    Scanned size (pos + gap cs + 1 + more) (after.drop more)
      (⟨kind, ⟨pos + gap cs, pos + gap cs + 1 + more⟩⟩ :: read) := by
  obtain ⟨hlength, hread⟩ := h
  have hmore := lexeme_le_length hlexeme
  have hafter := congrArg List.length hdrop
  simp only [List.length_drop, List.length_cons] at hafter
  refine ⟨by rw [List.length_drop]; omega, ?_⟩
  rw [List.reverse_cons]
  exact hread.concat (Nat.le_add_right _ _) (fun _ => by simp only; omega) (Nat.le_refl _)
    (by omega)

/-- **The tokens of a text stand one after the other inside it.** -/
theorem tokens_ordered {text : String} {ts : List Token} (h : tokens text = .ok ts) :
    Ordered ts text.length := by
  have hstart : Scanned text.length 0 text.toList [] :=
    ⟨by rw [Nat.zero_add, String.length_toList], List.Pairwise.nil, by simp, by simp⟩
  obtain ⟨pos, cs, read, ⟨hlength, hread⟩, -, rfl⟩ :=
    scan_invariant (P := Scanned text.length) (fun h => h.step) hstart h
  have hgap := gap_le_length cs
  rw [List.reverse_cons]
  exact hread.concat (Nat.le_add_right _ _) (fun hne => absurd rfl hne) (by simp only; omega)
    (by omega)

section Places
variable {text : String} {before after : List Token} {t : Token}
  (h : tokens text = .ok (before ++ t :: after))

include h

theorem stop_le_of_mem_before {u : Token} (hu : u ∈ before) :
    u.span.start < u.span.stop ∧ u.span.stop ≤ t.span.start := by
  have hordered := tokens_ordered h
  have hfinish := (tokens_finished h).unfinished (List.cons_ne_nil t after) u hu
  exact ⟨hordered.pos u (by simp [hu]) hfinish,
    (List.pairwise_append.mp hordered.apart).2.2 u hu t List.mem_cons_self⟩

theorem start_le_of_mem_after {u : Token} (hu : u ∈ t :: after) : t.span.start ≤ u.span.start := by
  rcases List.mem_cons.mp hu with rfl | hu
  · exact Nat.le_refl _
  · rw [← List.singleton_append, ← List.append_assoc] at h
    have hordered := tokens_ordered h
    have hfinish := (tokens_finished h).unfinished (List.ne_nil_of_mem hu) t (by simp)
    have hpos := hordered.pos t (by simp) hfinish
    have hapart := (List.pairwise_append.mp hordered.apart).2.2 t (by simp) u hu
    omega

end Places

end LanguageServer.Script
