import LanguageServer.Proofs.Document.Positions
import LanguageServer.Proofs.Document.Reachable
import Mathlib.Order.Monotone.Basic

/-! # Offsets and positions are ordered alike

The offset of a position adds up the lines before it; the position of an offset walks over the lines
and takes each one off. The lines lie one behind the other, so an offset falls on one line only, and
the later of two offsets has the later position.

* `lineStart_succ`, `lineStart_add_lt`: where the lines start;
* `indexOf_of_prefix`: positions in texts that begin alike;
* `positionFrom_at`: the walk comes to the place it was given the distance of;
* `positionAt_indexOf`, `before_positionAt`, `positionAt_behind`: the positions of a document;
* `walk?`: the walk with every subtraction checked;
* `positions_ordered`: all documents of a run. -/

namespace LanguageServer

/-- The position comes before another one: on an earlier line, or earlier on the same line. -/
def Position.Before (p q : Position) : Prop :=
  p.line < q.line ∨ p.line = q.line ∧ p.character < q.character

namespace Document

/-! ### Lines one behind the other -/

theorem total_take_succ {lengths : List Nat} {k length : Nat} (h : lengths[k]? = some length) :
    total (lengths.take (k + 1)) = total (lengths.take k) + length := by
  induction lengths generalizing k with
  | nil => cases h
  | cons first lengths ih =>
    cases k with
    | zero =>
      cases h
      simp
    | succ k =>
      rw [List.take_succ_cons, List.take_succ_cons, total_cons, total_cons, ih h]
      omega

variable {d : Document}

theorem lineStart_succ {k length : Nat} (h : d.lineLengths[k]? = some length) :
    d.lineStart (k + 1) = d.lineStart k + length + 1 := by
  rw [lineStart, lineStart, total_take_succ h]
  omega

theorem lineStart_le_succ (d : Document) (k : Nat) : d.lineStart k ≤ d.lineStart (k + 1) := by
  by_cases hk : k < d.lineLengths.length
  · have hsucc := lineStart_succ (List.getElem?_eq_getElem hk)
    omega
  · rw [lineStart, lineStart, List.take_of_length_le (by omega), List.take_of_length_le (by omega)]
    omega

theorem lineStart_add_lt {k l length : Nat} (h : d.lineLengths[k]? = some length) (hkl : k < l) :
    d.lineStart k + length < d.lineStart l := by
  have hmono : d.lineStart (k + 1) ≤ d.lineStart l :=
    monotone_nat_of_le_succ d.lineStart_le_succ hkl
  have hsucc := lineStart_succ h
  omega

theorem lineStart_add_le {k length : Nat} (h : d.lineLengths[k]? = some length) :
    d.lineStart k + length ≤ d.charCount := by
  have hk : k < d.lineLengths.length := (List.getElem?_eq_some_iff.mp h).1
  have hall : d.lineStart d.lineLengths.length = total d.lineLengths + d.lineLengths.length := by
    rw [lineStart, List.take_length]
  have hlt := lineStart_add_lt h hk
  rw [charCount]
  omega

/-! ### Texts that begin alike -/

/-- **The lines up to a place depend on the text before it alone.** A line that starts there or
before it is a line of every text that begins with `cs`, and so are the lines before it. -/
theorem take_lineLengthsOf {cs after : List Char} (after' : List Char) {k : Nat}
    (hk : k < (lineLengthsOf (cs ++ after)).length)
    (hstart : total ((lineLengthsOf (cs ++ after)).take k) + k ≤ cs.length) :
    k < (lineLengthsOf (cs ++ after')).length ∧
      (lineLengthsOf (cs ++ after')).take k = (lineLengthsOf (cs ++ after)).take k := by
  induction cs generalizing k with
  | nil =>
    obtain rfl : k = 0 := by
      rw [List.length_nil] at hstart
      omega
    exact ⟨List.length_pos_iff.mpr (lineLengthsOf_ne_nil _), rfl⟩
  | cons c cs ih =>
    cases k with
    | zero => exact ⟨List.length_pos_iff.mpr (lineLengthsOf_ne_nil _), rfl⟩
    | succ k =>
      by_cases hc : c = '\n'
      · simp only [hc, List.cons_append, lineLengthsOf_newline, List.length_cons,
          List.take_succ_cons, total_cons] at hk hstart ⊢
        obtain ⟨hlt, htake⟩ := ih (Nat.lt_of_succ_lt_succ hk) (by omega)
        exact ⟨Nat.succ_lt_succ hlt, by rw [htake]⟩
      · -- the first line goes on with the first line of what follows
        obtain ⟨n, rest, hlines⟩ := List.exists_cons_of_ne_nil (lineLengthsOf_ne_nil (cs ++ after))
        obtain ⟨n', rest', hlines'⟩ :=
          List.exists_cons_of_ne_nil (lineLengthsOf_ne_nil (cs ++ after'))
        have hagain := @ih (k + 1)
        simp only [List.cons_append, hlines, hlines', lineLengthsOf_cons hc hlines,
          lineLengthsOf_cons hc hlines', List.length_cons, List.take_succ_cons, total_cons,
          List.cons.injEq] at hk hstart hagain ⊢
        obtain ⟨hlt, rfl, htake⟩ := hagain hk (by omega)
        exact ⟨hlt, rfl, htake⟩

/-- **A position keeps its offset** in every text that is the same up to there, also if its
character is behind the end of its line. -/
theorem indexOf_of_prefix {d d' : Document} {cs after after' : List Char}
    (h : d.lineLengths = lineLengthsOf (cs ++ after))
    (h' : d'.lineLengths = lineLengthsOf (cs ++ after')) {p : Position} {index : Nat}
    (hindex : d.indexOf p = .ok index) (hle : index ≤ cs.length) : d'.indexOf p = .ok index := by
  rw [indexOf_eq_ok_iff, lineCount, lineStart, h] at hindex
  obtain ⟨hline, hsum⟩ := hindex
  obtain ⟨hline', htake⟩ := take_lineLengthsOf after' hline (by omega)
  rw [indexOf_eq_ok_iff, lineCount, lineStart, h', htake]
  exact ⟨hline', hsum⟩

/-! ### The walk over the lines -/

/-- **The walk comes to the place** whose distance it was given. -/
theorem positionFrom_at {number k character length : Nat} {lengths : List Nat}
    (h : lengths[k]? = some length) (hle : character ≤ length) :
    positionFrom number (total (lengths.take k) + k + character) lengths =
      ⟨(number + k).toUInt32, character.toUInt32⟩ := by
  induction lengths generalizing number k with
  | nil => cases h
  | cons first lengths ih =>
    cases k with
    | zero =>
      cases h
      rw [List.take_zero, total_nil, Nat.zero_add, positionFrom_here hle, Nat.add_zero]
    | succ k =>
      have hmore : lengths ≠ [] := by
        rintro rfl
        cases h
      rw [List.take_succ_cons, total_cons, positionFrom_next (by omega) hmore]
      have hleft : first + total (lengths.take k) + (k + 1) + character - (first + 1) =
          total (lengths.take k) + k + character := by omega
      rw [hleft, ih h, Nat.add_right_comm, Nat.add_assoc]

theorem positionFrom_behind {number remaining length : Nat} {lengths : List Nat}
    (hlast : lengths.getLast? = some length)
    (hbehind : total lengths + lengths.length ≤ remaining) :
    positionFrom number remaining lengths =
      ⟨(number + (lengths.length - 1)).toUInt32, length.toUInt32⟩ := by
  induction lengths generalizing number remaining with
  | nil => cases hlast
  | cons first lengths ih =>
    rw [total_cons, List.length_cons] at hbehind
    by_cases hmore : lengths = []
    · subst hmore
      cases hlast
      rw [positionFrom, Nat.min_eq_right (by omega)]
      rfl
    · have hpos := List.length_pos_iff.mpr hmore
      rw [List.getLast?_cons_of_ne_nil hmore] at hlast
      rw [positionFrom_next (by omega) hmore, ih hlast (by omega), List.length_cons]
      congr 2
      omega

/-- The walk over the lines that refuses to subtract below zero, where `stop` is the end of the last
line. -/
def walk? (stop : Position) (number remaining : Nat) : List Nat → Option Position
  | [] => some stop
  | length :: lengths =>
    if remaining ≤ length then some ⟨number.toUInt32, remaining.toUInt32⟩
    else if length + 1 ≤ remaining then
      walk? stop (number + 1) (remaining - (length + 1)) lengths
    else none

/-- **The walk never subtracts below zero,** not even behind the text. -/
theorem walk?_eq {number remaining length : Nat} {lengths : List Nat}
    (hlast : lengths.getLast? = some length) :
    walk? ⟨(number + (lengths.length - 1)).toUInt32, length.toUInt32⟩ number remaining lengths =
      some (positionFrom number remaining lengths) := by
  induction lengths generalizing number remaining with
  | nil => cases hlast
  | cons first lengths ih =>
    rw [walk?]
    rcases Nat.lt_or_ge first remaining with hnext | hhere
    · rw [if_neg (by omega), if_pos (by omega)]
      by_cases hmore : lengths = []
      · subst hmore
        cases hlast
        rw [walk?, positionFrom, Nat.min_eq_right (by omega)]
        rfl
      · have hpos := List.length_pos_iff.mpr hmore
        rw [List.getLast?_cons_of_ne_nil hmore] at hlast
        rw [positionFrom_next hnext hmore, ← ih hlast, List.length_cons]
        congr 3
        omega
    · rw [if_pos hhere, positionFrom_here hhere]

/-! ### The positions of a document -/

theorem lineLength_eq_ok_iff {n : UInt32} {length : Nat} :
    d.lineLength n = .ok length ↔ d.lineLengths[n.toNat]? = some length := by
  rw [lineLength, checkLine, lineCount]
  by_cases hn : n.toNat < d.lineLengths.length
  · rw [if_pos hn]
    simp [Except.map, List.getElem?_eq_getElem hn, List.getD_eq_getElem?_getD]
  · rw [if_neg hn, List.getElem?_eq_none (by omega)]
    simp [Except.map]

theorem indexOf_of_holds {p : Position} (h : d.Holds p) :
    ∃ index ≤ d.charCount, d.indexOf p = .ok index ∧
      index = d.lineStart p.line.toNat + p.character.toNat := by
  obtain ⟨length, hlength, hle⟩ := h
  rw [lineLength_eq_ok_iff] at hlength
  have hline : p.line.toNat < d.lineCount := (List.getElem?_eq_some_iff.mp hlength).1
  have hend := lineStart_add_le hlength
  refine ⟨_, ?_, ?_, rfl⟩
  · omega
  · rw [indexOf, checkLine, if_pos hline]
    rfl

theorem positionAt_indexOf {p : Position} (h : d.Holds p) {index : Nat}
    (hindex : d.indexOf p = .ok index) : d.positionAt index = p := by
  obtain ⟨index', -, hindex', hstart⟩ := indexOf_of_holds h
  rw [hindex] at hindex'
  cases hindex'
  obtain ⟨length, hlength, hle⟩ := h
  rw [lineLength_eq_ok_iff] at hlength
  rw [hstart, positionAt, lineStart, positionFrom_at hlength hle, Nat.zero_add]
  simp

theorem before_positionAt (hne : d.lineLengths ≠ []) (hlimit : d.charCount < UInt32.size)
    {i j : Nat} (hij : i < j) (hj : j ≤ d.charCount) :
    (d.positionAt i).Before (d.positionAt j) := by
  obtain ⟨k, length, hk, hline, hcharacter, hi⟩ := positionAt_exact hne hlimit (by omega : i ≤ _)
  obtain ⟨l, length', hl, hline', hcharacter', hj'⟩ := positionAt_exact hne hlimit hj
  rw [Position.Before, UInt32.lt_iff_toNat_lt, UInt32.lt_iff_toNat_lt, ← UInt32.toNat_inj, hline,
    hline']
  rcases Nat.lt_trichotomy k l with hlt | rfl | hgt
  · exact Or.inl hlt
  · exact Or.inr ⟨rfl, by omega⟩
  · -- the line of the smaller offset would start behind the greater one
    have hbefore := lineStart_add_lt hl hgt
    omega

/-- **Behind the text** every offset has the position of the end of the last line. -/
theorem positionAt_behind (hlimit : d.charCount < UInt32.size) {length : Nat}
    (hlast : d.lineLengths.getLast? = some length) {index : Nat} (hindex : d.charCount < index) :
    (d.positionAt index).line.toNat + 1 = d.lineCount ∧
      (d.positionAt index).character.toNat = length := by
  have hne : d.lineLengths ≠ [] := by
    intro hnil
    rw [hnil] at hlast
    cases hlast
  have hpos := List.length_pos_iff.mpr hne
  have hget : d.lineLengths[d.lineLengths.length - 1]? = some length := by
    rw [← List.getLast?_eq_getElem?, hlast]
  have hend := lineStart_add_le hget
  have hlines : d.lineLengths.length - 1 < UInt32.size := by
    rw [charCount] at hlimit
    omega
  have hlength : length < UInt32.size := by omega
  rw [charCount] at hindex
  rw [positionAt, positionFrom_behind hlast (by omega), lineCount, Nat.zero_add,
    UInt32.toNat_ofNat_of_lt' hlines, UInt32.toNat_ofNat_of_lt' hlength]
  omega

end Document

namespace Store

/-- **Offsets and positions are ordered alike.** In every document of a run that is shorter than
`2 ^ 32` characters the offset of the position of an offset is the offset, and the position is on a
line of the document; the position of the offset of a position on a line is the position; the later
of two offsets has the later position; and offsets behind the text have the position of the end of
the last line. The walk over the lines that gives these positions never subtracts below zero. -/
theorem positions_ordered (operations : List Operation) (key : String) (d : Document)
    (h : (key, d) ∈ (run operations).entries) (hshort : d.text.length < UInt32.size) :
    (∀ i ≤ d.charCount, d.indexOf (d.positionAt i) = .ok i ∧
      ∃ length, d.lineLength (d.positionAt i).line = .ok length ∧
        (d.positionAt i).character.toNat ≤ length) ∧
    (∀ p length, d.lineLength p.line = .ok length → p.character.toNat ≤ length →
      ∃ i ≤ d.charCount, d.indexOf p = .ok i ∧ d.positionAt i = p) ∧
    (∀ i j, i < j → j ≤ d.charCount → (d.positionAt i).Before (d.positionAt j)) ∧
    (∀ i, d.charCount < i → (d.positionAt i).line.toNat + 1 = d.lineCount ∧
      d.lineLength (d.positionAt i).line = .ok (d.positionAt i).character.toNat) ∧
    ∃ length, d.lineLengths.getLast? = some length ∧
      ∀ i, Document.walk? ⟨(d.lineCount - 1).toUInt32, length.toUInt32⟩ 0 i d.lineLengths =
        some (d.positionAt i) := by
  have hfresh : d.Fresh key := allFresh_run operations key d h
  have hne := hfresh.lineLengths_ne_nil
  have hlimit : d.charCount < UInt32.size := by rw [hfresh.charCount_eq]; exact hshort
  obtain ⟨length, hlast⟩ := List.getLast?_isSome.mpr hne |> Option.isSome_iff_exists.mp
  refine ⟨fun i hi => ?_, fun p length hlength hle => ?_, fun i j => ?_, fun i hi => ?_,
    length, hlast, fun i => ?_⟩
  · exact ⟨Document.indexOf_positionAt hne hlimit hi, Document.holds_positionAt hne hlimit hi⟩
  · have hholds : d.Holds p := ⟨length, hlength, hle⟩
    obtain ⟨i, hi, hindex, -⟩ := Document.indexOf_of_holds hholds
    exact ⟨i, hi, hindex, Document.positionAt_indexOf hholds hindex⟩
  · exact Document.before_positionAt hne hlimit
  · obtain ⟨hline, hcharacter⟩ := Document.positionAt_behind hlimit hlast hi
    refine ⟨hline, Document.lineLength_eq_ok_iff.mpr ?_⟩
    rw [hcharacter, ← hlast, List.getLast?_eq_getElem?]
    congr 1
    rw [Document.lineCount] at hline
    omega
  · have hwalk := @Document.walk?_eq 0 i length d.lineLengths hlast
    rwa [Nat.zero_add] at hwalk

/-- A line end among the first characters of the text, and offsets on both sides of one. -/
theorem positions_ordered_changed :
    let operations : List Operation := [.opening "a" "é\n\n😀x" 1,
      .changing "a" 2 [⟨some ⟨⟨1, 0⟩, ⟨1, 0⟩⟩, "b"⟩]]
    let d : Document := ⟨"a", "é\nb\n😀x", 2, [1, 1, 2]⟩
    ("a", d) ∈ (run operations).entries ∧ d.text.length < UInt32.size ∧
      d.indexOf (d.positionAt 5) = .ok 5 ∧ (d.positionAt 3).Before (d.positionAt 4) ∧
      (d.positionAt 9).line.toNat + 1 = 3 := by
  intro operations d
  have hmem : ("a", d) ∈ (run operations).entries := by decide
  have hshort : d.text.length < UInt32.size := by decide
  obtain ⟨hindex, -, hbefore, hbehind, -⟩ := positions_ordered operations "a" d hmem hshort
  exact ⟨hmem, hshort, (hindex 5 (by decide)).1, hbefore 3 4 (by decide) (by decide),
    (hbehind 9 (by decide)).1⟩

end Store

end LanguageServer
