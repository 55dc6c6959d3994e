import LanguageServer.Text.Blank

/-! # Blanks among the ASCII characters

No white space stands between the digits and the letters of ASCII, so neither digits nor letters are
blank. A blank at the end of a text goes with its other blanks when it is trimmed: `trim_concat`. -/

namespace LanguageServer.Text

theorem blankRanges_apart_from_ascii :
    ∀ range ∈ blankRanges, range.2 < '0'.toNat ∨ 'z'.toNat < range.1 := by decide

theorem isBlank_eq_false_of_ascii {c : Char} (hlow : '0'.toNat ≤ c.toNat)
    (hhigh : c.toNat ≤ 'z'.toNat) : isBlank c = false := by
  rw [Bool.eq_false_iff]
  intro hblank
  obtain ⟨range, hmem, hfrom, hto⟩ := Ranges.mem_iff.mp hblank
  rcases blankRanges_apart_from_ascii range hmem with hbelow | habove <;> omega

theorem isBlank_eq_false_of_isDigit {c : Char} (h : c.isDigit = true) : isBlank c = false := by
  obtain ⟨hlow, hhigh⟩ := Char.isDigit_iff_toNat.mp h
  exact isBlank_eq_false_of_ascii hlow (Nat.le_trans hhigh (by decide))

theorem trim_concat (cs : List Char) {c : Char} (hc : isBlank c = true) :
    trim (cs ++ [c]) = trim cs := by
  have hlast : [c].dropWhile isBlank = [] := List.dropWhile_cons_of_pos hc
  rw [trim, trim, List.dropWhile_append, hlast]
  split
  · next hall => rw [List.isEmpty_iff.mp hall]
  · rw [List.reverse_append, List.reverse_singleton, List.singleton_append,
      List.dropWhile_cons_of_pos hc]

end LanguageServer.Text
