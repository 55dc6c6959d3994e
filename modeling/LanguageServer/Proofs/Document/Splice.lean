import LanguageServer.Proofs.Document.Positions
import LanguageServer.Proofs.Document.Reachable
import LanguageServer.Proofs.Text.Utf8

/-! # Changes replace characters

A change of a range names two positions, checks their offsets and replaces the bytes between them.
Positions count lines and characters, offsets count characters, and the text is bytes. For the
documents of a run the three agree: the characters between the offsets are replaced, and no place
that the change computes is inside a character or behind the text.

* `Text.Utf8.Spliced`: a replacement of characters, together with the bytes it goes by;
* `offsets_eq`: which offsets a range has, and which of its checks fails;
* `apply_ranged_iff`: when a change of a range succeeds, and what it gives;
* `applyAll_ranged`: every change of a range of every document of a run. -/

namespace LanguageServer

/-- The text `result` is `cs` with the characters from `start` up to `stop` replaced by `new`. The
bytes at the two places are in order, in the text and between characters, and replacing the bytes
between them gives `result` too. -/
structure Text.Utf8.Spliced (start stop : Nat) (cs new result : List Char) : Prop where
  characters : start ≤ stop ∧ stop ≤ cs.length
  text : result = cs.take start ++ new ++ cs.drop stop
  bytes : offset start cs ≤ offset stop cs ∧ offset stop cs ≤ size cs
  cut_start : cut? (offset start cs) cs = some (cs.take start, cs.drop start)
  cut_stop : cut? (offset stop cs) cs = some (cs.take stop, cs.drop stop)
  replaced : replace? (offset start cs) (offset stop cs) new cs = some result

theorem Text.Utf8.spliced {start stop : Nat} {cs : List Char} (horder : start ≤ stop)
    (hbound : stop ≤ cs.length) (new : List Char) :
    Spliced start stop cs new (cs.take start ++ new ++ cs.drop stop) where
  characters := ⟨horder, hbound⟩
  text := rfl
  bytes := by
    obtain ⟨count, rfl⟩ := Nat.exists_eq_add_of_le horder
    have hadd := offset_add start count cs
    exact ⟨by omega, offset_le_size _ cs⟩
  cut_start := cut?_offset start cs
  cut_stop := cut?_offset stop cs
  replaced := replace?_offset horder new cs

namespace Document

variable {d : Document}

theorem splice_eq {start stop : Nat} (h : start ≤ stop) (cs new : List Char) :
    splice cs new start stop = cs.take start ++ new ++ cs.drop stop := by
  rw [splice, Text.Utf8.replace?_offset h]
  rfl

/-- **The checks of a range** are made one after the other: the two lines, the order of the two
offsets, the end of the text. -/
theorem offsets_eq (d : Document) (range : Range) {start stop : Nat}
    (hstart : start = d.lineStart range.start.line.toNat + range.start.character.toNat)
    (hstop : stop = d.lineStart range.stop.line.toNat + range.stop.character.toNat) :
    d.offsets range =
      if d.lineCount ≤ range.start.line.toNat then .error (.lineOutOfRange range.start.line)
      else if d.lineCount ≤ range.stop.line.toNat then .error (.lineOutOfRange range.stop.line)
      else if stop < start then .error (.startAfterEnd start stop)
      else if d.charCount < stop then .error (.endOutOfBounds stop d.charCount)
      else .ok (start, stop) := by
  rw [offsets, indexOf_eq, indexOf_eq, ← hstart, ← hstop]
  by_cases hfirst : d.lineCount ≤ range.start.line.toNat
  · rw [if_pos hfirst, if_pos hfirst]
    rfl
  · rw [if_neg hfirst, if_neg hfirst]
    by_cases hlast : d.lineCount ≤ range.stop.line.toNat
    · rw [if_pos hlast, if_pos hlast]
      rfl
    · rw [if_neg hlast, if_neg hlast]
      rfl

theorem offsets_eq_ok_iff {range : Range} {start stop : Nat} :
    d.offsets range = .ok (start, stop) ↔ d.indexOf range.start = .ok start ∧
      d.indexOf range.stop = .ok stop ∧ start ≤ stop ∧ stop ≤ d.charCount := by
  rw [offsets_eq d range rfl rfl, indexOf_eq_ok_iff, indexOf_eq_ok_iff]
  split_ifs with hfirst hlast horder hbound
  · exact ⟨nofun, fun h => absurd h.1.1 (Nat.not_lt.mpr hfirst)⟩
  · exact ⟨nofun, fun h => absurd h.2.1.1 (Nat.not_lt.mpr hlast)⟩
  · exact ⟨nofun, fun h => by omega⟩
  · exact ⟨nofun, fun h => by omega⟩
  · rw [Except.ok.injEq, Prod.mk.injEq]
    exact ⟨fun h => by omega, fun h => by omega⟩

/-- **A change of a range** succeeds if the ends of the range are in order and in the document, and
then it replaces the characters between them. -/
theorem apply_ranged_iff {range : Range} {text : String} {version : Int32} {next : Document} :
    d.apply ⟨some range, text⟩ version = .ok next ↔ ∃ start stop,
      d.indexOf range.start = .ok start ∧ d.indexOf range.stop = .ok stop ∧ start ≤ stop ∧
      stop ≤ d.charCount ∧ next = create d.uri (String.ofList
        (d.text.toList.take start ++ text.toList ++ d.text.toList.drop stop)) version := by
  simp only [apply]
  constructor
  · intro h
    cases hoffsets : d.offsets range with
    | error e =>
      rw [hoffsets] at h
      cases h
    | ok ends =>
      obtain ⟨start, stop⟩ := ends
      rw [hoffsets] at h
      cases h
      obtain ⟨hstart, hstop, hle, hbound⟩ := offsets_eq_ok_iff.mp hoffsets
      exact ⟨start, stop, hstart, hstop, hle, hbound, by simp only [splice_eq hle]⟩
  · rintro ⟨start, stop, hstart, hstop, hle, hbound, rfl⟩
    rw [offsets_eq_ok_iff.mpr ⟨hstart, hstop, hle, hbound⟩, ← splice_eq hle]
    rfl

end Document

namespace Store

section Ranged

variable {d : Document} {range : Range} (text : String) (version : Int32)

/-- The document stays if the range is none of it. -/
theorem applyAll_of_offsets_error {e : DocumentError} (h : d.offsets range = .error e) :
    (applyAll version d [⟨some range, text⟩]).value = (d, .error e) := by
  have happly : d.apply ⟨some range, text⟩ version = .error e := by
    simp only [Document.apply, h]
    rfl
  rw [applyAll, happly]
  rfl

theorem applyAll_of_offsets {start stop : Nat} (h : d.offsets range = .ok (start, stop)) :
    (applyAll version d [⟨some range, text⟩]).value =
      (Document.create d.uri
        (String.ofList (Document.splice d.text.toList text.toList start stop)) version, .ok ()) := by
  have happly : d.apply ⟨some range, text⟩ version = .ok (Document.create d.uri
      (String.ofList (Document.splice d.text.toList text.toList start stop)) version) := by
    simp only [Document.apply, h]
    rfl
  rw [applyAll, happly]
  rfl

end Ranged

/-- **A change of a range replaces its characters, or fails and changes nothing.** The offset of a
position is the sum of the lengths of the lines before it, plus their number, plus the character.
The checks are made in order: the line of the start, the line of the end, the order of the offsets,
the end of the text. If all hold, the characters between the offsets are replaced by the new text,
and the bytes that are replaced for it start and end between characters. -/
theorem applyAll_ranged (operations : List Operation) (key : String) (d : Document)
    (h : (key, d) ∈ (run operations).entries) (range : Range) (text : String) (version : Int32) :
    let start := Document.total (d.lineLengths.take range.start.line.toNat) +
      range.start.line.toNat + range.start.character.toNat
    let stop := Document.total (d.lineLengths.take range.stop.line.toNat) +
      range.stop.line.toNat + range.stop.character.toNat
    let outcome := (applyAll version d [⟨some range, text⟩]).value
    if d.lineCount ≤ range.start.line.toNat then
      outcome = (d, .error (.lineOutOfRange range.start.line))
    else if d.lineCount ≤ range.stop.line.toNat then
      outcome = (d, .error (.lineOutOfRange range.stop.line))
    else if stop < start then outcome = (d, .error (.startAfterEnd start stop))
    else if d.charCount < stop then outcome = (d, .error (.endOutOfBounds stop d.charCount))
    else ∃ next, outcome = (next, .ok ()) ∧
      Text.Utf8.Spliced start stop d.text.toList text.toList next.text.toList ∧
      next.version = version ∧ next.uri = d.uri ∧ next.Fresh key := by
  intro start stop outcome
  have hfresh : d.Fresh key := allFresh_run operations key d h
  have hoffsets := d.offsets_eq range (rfl : start = _) (rfl : stop = _)
  split_ifs at hoffsets ⊢ with hfirst hlast horder hbound
  · exact applyAll_of_offsets_error text version hoffsets
  · exact applyAll_of_offsets_error text version hoffsets
  · exact applyAll_of_offsets_error text version hoffsets
  · exact applyAll_of_offsets_error text version hoffsets
  · have hle : start ≤ stop := by omega
    -- The number of characters that the line index gives is the length of the text.
    have hlength : stop ≤ d.text.toList.length := by
      rw [String.length_toList, ← hfresh.charCount_eq]
      omega
    have hspliced := Text.Utf8.spliced hle hlength text.toList
    rw [← Document.splice_eq hle] at hspliced
    refine ⟨_, applyAll_of_offsets text version hoffsets, ?_, rfl, rfl, ?_⟩
    · rw [Document.create, String.toList_ofList]
      exact hspliced
    · rw [hfresh.uri_eq]
      exact Document.fresh_create ..

/-- From the middle of one line to the end of the next, over characters of three sizes. -/
theorem applyAll_ranged_multibyte :
    let operations : List Operation := [.opening "a" "aé\n😀x\n" 1]
    let d : Document := ⟨"a", "aé\n😀x\n", 1, [2, 2, 0]⟩
    ("a", d) ∈ (run operations).entries ∧
      ∃ next, (applyAll 2 d [⟨some ⟨⟨0, 1⟩, ⟨1, 1⟩⟩, "€"⟩]).value = (next, .ok ()) ∧
        Text.Utf8.Spliced 1 4 d.text.toList ['€'] next.text.toList ∧ next.text = "a€x\n" := by
  intro operations d
  have hmem : ("a", d) ∈ (run operations).entries := by decide
  have hchange := applyAll_ranged operations "a" d hmem ⟨⟨0, 1⟩, ⟨1, 1⟩⟩ "€" 2
  obtain ⟨next, hnext, hspliced, -⟩ := hchange
  have htext : next.text.toList = "a€x\n".toList := by
    rw [hspliced.text]
    decide
  exact ⟨hmem, next, hnext, hspliced, String.toList_inj.mp htext⟩

end Store

end LanguageServer
