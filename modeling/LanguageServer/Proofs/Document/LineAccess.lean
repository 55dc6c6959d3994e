import LanguageServer.Proofs.Document.Offsets
import LanguageServer.Proofs.Text.Utf8

/-! # The lines of a document

A document does not keep its lines. A line is found by its number: the lengths before it are added
up, the two ends are turned into bytes, and what is between them is cut out. This is the piece of
the text with that number, as the lengths are those of the pieces; so the lines leave no gap and do
not overlap.

* `take_joined`, `drop_joined`: where the pieces stand in the text they make up;
* `cut_piece`: the lengths of the pieces find each of them;
* `LineAt`, `lineAt_of_piece`: the lines of a document are its pieces;
* `lines_partition`: all documents of a run. -/

namespace LanguageServer

open Text (pieces joined)

namespace Document

/-! ### Pieces in their text -/

theorem take_joined (separator : Char) (piece : List Char) (rest : List (List Char)) :
    (joined separator (piece :: rest)).take piece.length = piece := by
  cases rest with
  | nil => exact List.take_length
  | cons next rest => exact List.take_left

theorem drop_joined (separator : Char) {all : List (List Char)} {k : Nat} (hk : k < all.length) :
    (joined separator all).drop (total ((all.map List.length).take k) + k) =
      joined separator (all.drop k) := by
  induction all generalizing k with
  | nil => exact absurd hk (Nat.not_lt_zero k)
  | cons piece all ih =>
    cases k with
    | zero => rfl
    | succ k =>
      have hrest : k < all.length := Nat.lt_of_succ_lt_succ hk
      obtain ⟨next, rest, rfl⟩ := List.exists_cons_of_length_pos (Nat.zero_lt_of_lt hrest)
      have hsum : total (((piece :: next :: rest).map List.length).take (k + 1)) + (k + 1) =
          piece.length + (total (((next :: rest).map List.length).take k) + k + 1) := by
        rw [List.map_cons, List.take_succ_cons, total_cons]
        omega
      rw [hsum, joined, List.drop_length_add_append, List.drop_succ_cons, ih hrest,
        List.drop_succ_cons]

/-- **The lengths of the pieces find each of them** in the text. -/
theorem cut_piece {cs piece : List Char} {k : Nat} (h : (pieces '\n' cs)[k]? = some piece) :
    (cs.drop (total ((lineLengthsOf cs).take k) + k)).take piece.length = piece := by
  obtain ⟨hk, hpiece⟩ := List.getElem?_eq_some_iff.mp h
  have hdrop := drop_joined '\n' hk
  rw [Text.joined_pieces, List.drop_eq_getElem_cons hk, hpiece, ← lineLengthsOf_eq_map_pieces]
    at hdrop
  rw [hdrop]
  exact take_joined '\n' piece _

/-! ### Lines -/

theorem slice_eq {start stop : Nat} (h : start ≤ stop) (cs : List Char) :
    slice cs start stop = (cs.drop start).take (stop - start) := by
  rw [slice, Text.Utf8.slice?_offset h, Option.getD_some]

/-- **The line `n` of the document** is `l` and begins at the offset `i`: that line and its length
are given, it holds no line end, `i` is the offset of the position at its start and the place of its
first character, and it is cut out between two bytes that are not inside a character. -/
structure LineAt (d : Document) (n : UInt32) (l : String) (i : Nat) : Prop where
  line : d.line n = .ok l
  length : d.lineLength n = .ok l.length
  newline_notMem : '\n' ∉ l.toList
  indexOf : d.indexOf ⟨n, 0⟩ = .ok i
  first : ∀ c ∈ l.toList.head?, d.text.toList[i]? = some c
  slice? : Text.Utf8.slice? (Text.Utf8.offset i d.text.toList)
    (Text.Utf8.offset (i + l.length) d.text.toList) d.text.toList = some l.toList

section
variable {key : String} {d : Document} (hfresh : d.Fresh key) {n : UInt32}
include hfresh

theorem length_pieces : (pieces '\n' d.text.toList).length = d.lineCount := by
  rw [lineCount, hfresh.lineLengths_eq, lineLengthsOf_eq_map_pieces, List.length_map]

/-- **The line with the number of a piece** is the piece. -/
theorem lineAt_of_piece {piece : List Char}
    (h : (pieces '\n' d.text.toList)[n.toNat]? = some piece) :
    d.LineAt n (String.ofList piece) (d.lineStart n.toNat) := by
  have hn : n.toNat < d.lineCount := by
    rw [← length_pieces hfresh]
    exact (List.getElem?_eq_some_iff.mp h).1
  have hlength : d.lineLengths[n.toNat]? = some piece.length := by
    rw [hfresh.lineLengths_eq, lineLengthsOf_eq_map_pieces, List.getElem?_map, h, Option.map_some]
  have hcut : (d.text.toList.drop (d.lineStart n.toNat)).take piece.length = piece := by
    rw [lineStart, hfresh.lineLengths_eq]
    exact cut_piece h
  refine ⟨?_, ?_, ?_, indexOf_eq_ok_iff.mpr ⟨hn, rfl⟩, ?_, ?_⟩
  · rw [Document.line, checkLine, if_pos hn]
    simp only [Except.map, List.getD_eq_getElem?_getD, hlength, Option.getD_some]
    rw [slice_eq (Nat.le_add_right _ _), Nat.add_sub_cancel_left, hcut]
  · rw [String.length_ofList]
    exact lineLength_eq_ok_iff.mpr hlength
  · rw [String.toList_ofList]
    exact Text.not_mem_of_mem_pieces (List.mem_of_getElem? h)
  · intro c hc
    rw [String.toList_ofList] at hc
    cases piece with
    | nil => cases hc
    | cons first rest =>
      cases hc
      have hget := congrArg (fun cs => cs[0]?) hcut
      simpa [List.getElem?_drop] using hget
  · rw [String.length_ofList, String.toList_ofList, Text.Utf8.slice?_offset (Nat.le_add_right _ _),
      Nat.add_sub_cancel_left, hcut]

end

theorem line_of_le {d : Document} {n : UInt32} (h : d.lineCount ≤ n.toNat) :
    d.line n = .error (.lineOutOfRange n) ∧ d.lineLength n = .error (.lineOutOfRange n) := by
  rw [line, lineLength, checkLine, if_neg (Nat.not_lt.mpr h)]
  exact ⟨rfl, rfl⟩

end Document

namespace Store

/-- **The lines of a document are a partition of its text.** A line is refused, with its number, if
and only if the document has no line with that number. Every other line holds no line end, has the
length that is told, is cut out of the text between characters, and begins at the offset of the
position at its start. Put together with line ends, the lines are the text. -/
theorem lines_partition (operations : List Operation) (key : String) (d : Document)
    (h : (key, d) ∈ (run operations).entries) :
    (∀ n : UInt32,
      (d.line n = .error (.lineOutOfRange n) ↔ d.lineCount ≤ n.toNat) ∧
      (d.lineLength n = .error (.lineOutOfRange n) ↔ d.lineCount ≤ n.toNat) ∧
      (n.toNat < d.lineCount → ∃ l i, d.LineAt n l i)) ∧
    ∃ ls : List String, ls.length = d.lineCount ∧
      (∀ n : UInt32, (d.line n).toOption = ls[n.toNat]?) ∧
      joined '\n' (ls.map String.toList) = d.text.toList := by
  have hfresh : d.Fresh key := allFresh_run operations key d h
  have hcount := Document.length_pieces hfresh
  refine ⟨fun n => ?_, (pieces '\n' d.text.toList).map String.ofList, ?_, fun n => ?_, ?_⟩
  · rcases Nat.lt_or_ge n.toNat d.lineCount with hn | hn
    · obtain ⟨piece, hpiece⟩ : ∃ piece, (pieces '\n' d.text.toList)[n.toNat]? = some piece :=
        ⟨_, List.getElem?_eq_getElem (hcount ▸ hn)⟩
      have hline := Document.lineAt_of_piece hfresh hpiece
      refine ⟨?_, ?_, fun _ => ⟨_, _, hline⟩⟩
      · rw [hline.line]
        exact iff_of_false nofun (Nat.not_le.mpr hn)
      · rw [hline.length]
        exact iff_of_false nofun (Nat.not_le.mpr hn)
    · obtain ⟨hline, hlength⟩ := Document.line_of_le hn
      exact ⟨iff_of_true hline hn, iff_of_true hlength hn, fun hlt => absurd hn (Nat.not_le.mpr hlt)⟩
  · rw [List.length_map, hcount]
  · rw [List.getElem?_map]
    cases hpiece : (pieces '\n' d.text.toList)[n.toNat]? with
    | some piece =>
      rw [(Document.lineAt_of_piece hfresh hpiece).line]
      rfl
    | none =>
      rw [List.getElem?_eq_none_iff, hcount] at hpiece
      rw [(Document.line_of_le hpiece).1]
      rfl
  · have hsame : String.toList ∘ String.ofList = id := funext fun _ => String.toList_ofList
    rw [List.map_map, hsame, List.map_id, Text.joined_pieces]

/-- A line of two bytes and one of four, after a change that put a line end between them. -/
theorem lines_partition_multibyte :
    let operations : List Operation := [.opening "a" "é😀" 1,
      .changing "a" 2 [⟨some ⟨⟨0, 1⟩, ⟨0, 1⟩⟩, "\n"⟩]]
    let d : Document := ⟨"a", "é\n😀", 2, [1, 1]⟩
    ("a", d) ∈ (run operations).entries ∧ d.LineAt 1 "😀" 2 ∧
      d.line 2 = .error (.lineOutOfRange 2) := by
  intro operations d
  have hmem : ("a", d) ∈ (run operations).entries := by decide
  obtain ⟨hlines, -⟩ := lines_partition operations "a" d hmem
  obtain ⟨l, i, hline⟩ := (hlines 1).2.2 (by decide)
  have htext : d.line 1 = .ok "😀" := by
    unfold d
    rfl
  have hindex : d.indexOf ⟨1, 0⟩ = .ok 2 := rfl
  obtain rfl : "😀" = l := Except.ok.inj (htext.symm.trans hline.line)
  obtain rfl : 2 = i := Except.ok.inj (hindex.symm.trans hline.indexOf)
  exact ⟨hmem, hline, (hlines 2).1.mpr (by decide)⟩

end Store

end LanguageServer
