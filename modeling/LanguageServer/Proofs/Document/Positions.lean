import LanguageServer.Document.Basic

/-! # Positions of offsets

The position of an offset is found by walking over the lines while there are more characters to go
than the line has. So the line is one of the document, the character is on it, and the offset of the
position is the offset again, as long as the document is short enough for a position to count its
lines and characters.

* `positionFrom_exact`: the walk, by induction on the lines;
* `indexOf_positionAt`, `holds_positionAt`: the positions of a document. -/

namespace LanguageServer.Document

@[simp] theorem total_nil : total [] = 0 := rfl

@[simp] theorem total_cons (length : Nat) (lengths : List Nat) :
    total (length :: lengths) = length + total lengths := rfl

theorem indexOf_eq (d : Document) (p : Position) :
    d.indexOf p =
      if d.lineCount ≤ p.line.toNat then .error (.lineOutOfRange p.line)
      else .ok (d.lineStart p.line.toNat + p.character.toNat) := by
  rw [indexOf, checkLine]
  by_cases hline : p.line.toNat < d.lineCount
  · rw [if_pos hline, if_neg (by omega)]
    rfl
  · rw [if_neg hline, if_pos (by omega)]
    rfl

theorem indexOf_eq_ok_iff {d : Document} {p : Position} {index : Nat} :
    d.indexOf p = .ok index ↔
      p.line.toNat < d.lineCount ∧ d.lineStart p.line.toNat + p.character.toNat = index := by
  rw [indexOf_eq]
  by_cases hline : d.lineCount ≤ p.line.toNat
  · simp [hline, Nat.not_lt.mpr hline]
  · simp [hline, Nat.not_le.mp hline]

section Walk
variable {number remaining length : Nat} {lengths : List Nat}

theorem positionFrom_here (h : remaining ≤ length) :
    positionFrom number remaining (length :: lengths) =
      ⟨number.toUInt32, remaining.toUInt32⟩ := by
  cases lengths with
  | nil => rw [positionFrom, Nat.min_eq_left h]
  | cons next lengths => exact if_pos h

theorem positionFrom_next (h : length < remaining) (hne : lengths ≠ []) :
    positionFrom number remaining (length :: lengths) =
      positionFrom (number + 1) (remaining - (length + 1)) lengths := by
  cases lengths with
  | nil => exact absurd rfl hne
  | cons next lengths => exact if_neg (Nat.not_le.mpr h)

/-- **The walk over the lines** stops on the line where the characters to go are used up. -/
theorem positionFrom_exact (hne : lengths ≠ [])
    (hle : remaining + 1 ≤ total lengths + lengths.length)
    (hlimit : number + total lengths + lengths.length ≤ UInt32.size) :
    ∃ k length, lengths[k]? = some length ∧
      (positionFrom number remaining lengths).line.toNat = number + k ∧
      (positionFrom number remaining lengths).character.toNat ≤ length ∧
      total (lengths.take k) + k + (positionFrom number remaining lengths).character.toNat =
        remaining := by
  induction lengths generalizing number remaining with
  | nil => exact absurd rfl hne
  | cons length lengths ih =>
    simp only [total_cons, List.length_cons] at hle hlimit
    rcases Nat.lt_or_ge length remaining with hnext | hhere
    · -- there is a next line, because the characters to go are in the text
      have hmore : lengths ≠ [] := by
        rintro rfl
        simp only [total_nil, List.length_nil] at hle
        omega
      have hle' : remaining - (length + 1) + 1 ≤ total lengths + lengths.length := by omega
      have hlimit' : number + 1 + total lengths + lengths.length ≤ UInt32.size := by omega
      obtain ⟨k, length', hk, hnumber, hcharacter, hindex⟩ := ih hmore hle' hlimit'
      rw [positionFrom_next hnext hmore]
      refine ⟨k + 1, length', hk, by omega, hcharacter, ?_⟩
      rw [List.take_succ_cons, total_cons]
      omega
    · refine ⟨0, length, rfl, ?_⟩
      have hnumber : number < UInt32.size := by omega
      have hremaining : remaining < UInt32.size := by omega
      rw [positionFrom_here hhere, UInt32.toNat_ofNat_of_lt' hnumber,
        UInt32.toNat_ofNat_of_lt' hremaining]
      simpa using hhere

end Walk

/-- The position is on a line of the document, and its character is one of the line or its end. -/
def Holds (d : Document) (p : Position) : Prop :=
  ∃ length, d.lineLength p.line = .ok length ∧ p.character.toNat ≤ length

section
variable {d : Document} (hne : d.lineLengths ≠ []) (hlimit : d.charCount < UInt32.size)
  {index : Nat} (hindex : index ≤ d.charCount)

include hne hlimit hindex

theorem positionAt_exact : ∃ k length, d.lineLengths[k]? = some length ∧
    (d.positionAt index).line.toNat = k ∧ (d.positionAt index).character.toNat ≤ length ∧
    d.lineStart k + (d.positionAt index).character.toNat = index := by
  have hlines := List.length_pos_iff.mpr hne
  unfold charCount at hindex hlimit
  have hle : index + 1 ≤ total d.lineLengths + d.lineLengths.length := by omega
  have hlimit' : 0 + total d.lineLengths + d.lineLengths.length ≤ UInt32.size := by omega
  obtain ⟨k, length, hk, hline, hrest⟩ := positionFrom_exact hne hle hlimit'
  rw [Nat.zero_add] at hline
  exact ⟨k, length, hk, hline, hrest⟩

theorem indexOf_positionAt : d.indexOf (d.positionAt index) = .ok index := by
  obtain ⟨k, length, hk, hline, -, hstart⟩ := positionAt_exact hne hlimit hindex
  have hlt : k < d.lineCount := (List.getElem?_eq_some_iff.mp hk).1
  rw [indexOf, checkLine, hline, if_pos hlt]
  exact congrArg _ hstart

theorem holds_positionAt : d.Holds (d.positionAt index) := by
  obtain ⟨k, length, hk, hline, hcharacter, -⟩ := positionAt_exact hne hlimit hindex
  have hlt : k < d.lineCount := (List.getElem?_eq_some_iff.mp hk).1
  have hlength : d.lineLengths.getD k 0 = length := by
    rw [List.getD_eq_getElem?_getD, hk, Option.getD_some]
  refine ⟨length, ?_, hcharacter⟩
  rw [lineLength, checkLine, hline, if_pos hlt]
  exact congrArg _ hlength

end

end LanguageServer.Document
