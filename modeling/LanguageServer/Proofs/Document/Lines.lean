import LanguageServer.Document.Basic
import LanguageServer.Text.Pieces
import Mathlib.Tactic.SplitIfs

/-! # The line index

The lengths that a document keeps are those of the pieces of its text between the line ends. So
there is at least one, and together with the line ends they count every character.

* `lineLengthsOf_eq_map_pieces`: the lengths are those of the pieces;
* `total_lineLengthsOf`: the characters and the line ends;
* `charCount_create`: the number of characters of a document. -/

namespace LanguageServer.Document

theorem lineLengthsOf_newline (cs : List Char) :
    lineLengthsOf ('\n' :: cs) = 0 :: lineLengthsOf cs := rfl

theorem lineLengthsOf_cons {c : Char} {cs : List Char} {n : Nat} {rest : List Nat} (hc : c ≠ '\n')
    (hcs : lineLengthsOf cs = n :: rest) : lineLengthsOf (c :: cs) = (n + 1) :: rest := by
  show extendLines c (lineLengthsOf cs) = _
  rw [hcs]
  exact if_neg hc

/-- **The line lengths are those of the pieces between the line ends.** -/
theorem lineLengthsOf_eq_map_pieces (cs : List Char) :
    lineLengthsOf cs = (Text.pieces '\n' cs).map List.length := by
  induction cs with
  | nil => rfl
  | cons c cs ih =>
    rw [Text.pieces]
    split_ifs with hc
    · rw [hc, lineLengthsOf_newline, ih]
      rfl
    · cases hpieces : Text.pieces '\n' cs with
      | nil => exact absurd hpieces (Text.pieces_ne_nil '\n' cs)
      | cons piece rest =>
        rw [hpieces] at ih
        exact lineLengthsOf_cons hc ih

theorem lineLengthsOf_ne_nil (cs : List Char) : lineLengthsOf cs ≠ [] := by
  rw [lineLengthsOf_eq_map_pieces]
  intro hnil
  exact Text.pieces_ne_nil '\n' cs (List.map_eq_nil_iff.mp hnil)

/-- **Every character is on a line or ends one,** and the last line has no end. -/
theorem total_lineLengthsOf (cs : List Char) :
    total (lineLengthsOf cs) + (lineLengthsOf cs).length = cs.length + 1 := by
  induction cs with
  | nil => rfl
  | cons c cs ih =>
    by_cases hc : c = '\n'
    · rw [hc, lineLengthsOf_newline]
      simp only [total, List.foldr_cons, List.length_cons] at ih ⊢
      omega
    · obtain ⟨n, rest, hlines⟩ := List.exists_cons_of_ne_nil (lineLengthsOf_ne_nil cs)
      rw [lineLengthsOf_cons hc hlines]
      rw [hlines] at ih
      simp only [total, List.foldr_cons, List.length_cons] at ih ⊢
      omega

theorem charCount_create (uri text : String) (version : Int32) :
    (create uri text version).charCount = text.length := by
  have hcount := total_lineLengthsOf text.toList
  simp only [charCount, create]
  rw [String.length_toList] at hcount
  omega

end LanguageServer.Document
