import LanguageServer.Proofs.Document.Positions
import LanguageServer.Proofs.Document.Splice

/-! # Changes taken back

A change of a range can be taken back by another one. It replaces what the change put in by what was
there before, and names the place by positions of the document after the change, which may have more
lines than before or fewer. These positions come from offsets, so their offsets are the ones they
come from, and the text before and behind the place is that of the document before.

* `Document.takingBack`: the change that takes a replacement back;
* `spliced_back`: a replacement in a text and the one that takes it back;
* `apply_takingBack`: every change of a range of every document of a run. -/

namespace LanguageServer

namespace Document

/-- The change that takes back a replacement of the characters of `d` from `start` up to `stop` by
`size` other ones, in the positions of the document `next` after it. -/
def takingBack (d next : Document) (start stop size : Nat) : Change :=
  ⟨some ⟨next.positionAt start, next.positionAt (start + size)⟩,
    String.ofList ((d.text.toList.drop start).take (stop - start))⟩

/-- **Characters that are replaced and then put back** give the text again. -/
theorem spliced_back {start stop : Nat} {cs : List Char} (horder : start ≤ stop)
    (hbound : stop ≤ cs.length) (new : List Char) :
    (cs.take start ++ new ++ cs.drop stop).take start ++ (cs.drop start).take (stop - start) ++
      (cs.take start ++ new ++ cs.drop stop).drop (start + new.length) = cs := by
  have hfront : (cs.take start).length = start := List.length_take_of_le (by omega)
  have hbefore : (cs.take start ++ new ++ cs.drop stop).take start = cs.take start := by
    rw [List.append_assoc, List.take_left' hfront]
  have hbehind : (cs.take start ++ new ++ cs.drop stop).drop (start + new.length) =
      cs.drop stop := List.drop_left' (by rw [List.length_append, hfront])
  have hinside : (cs.drop start).take (stop - start) ++ cs.drop stop = cs.drop start := by
    have hsplit := List.take_append_drop (stop - start) (cs.drop start)
    rwa [List.drop_drop, Nat.add_sub_cancel' horder] at hsplit
  rw [hbefore, hbehind, List.append_assoc, hinside, List.take_append_drop]

end Document

namespace Store

/-- **Every change of a range can be taken back.** Let a change of a range succeed on a document of
a run, and let the text after it have fewer than `2 ^ 32` characters. Then the change that replaces
what was put in by the characters that were there, between the positions that the document after the
change has for its two ends, succeeds; with the old version it gives the old document, its lines and
all. -/
theorem apply_takingBack (operations : List Operation) (key : String) (d : Document)
    (h : (key, d) ∈ (run operations).entries) (range : Range) (text : String) (version : Int32)
    (next : Document) (hnext : d.apply ⟨some range, text⟩ version = .ok next)
    (hshort : next.text.length < UInt32.size) :
    ∃ start stop, d.indexOf range.start = .ok start ∧ d.indexOf range.stop = .ok stop ∧
      start ≤ stop ∧
      next.apply (d.takingBack next start stop text.length) d.version = .ok d := by
  have hfresh : d.Fresh key := allFresh_run operations key d h
  have hafter : next.Fresh key := hfresh.apply hnext
  obtain ⟨start, stop, hstart, hstop, hle, hbound, hmade⟩ := Document.apply_ranged_iff.mp hnext
  rw [hfresh.charCount_eq, ← String.length_toList] at hbound
  have htext : next.text.toList =
      d.text.toList.take start ++ text.toList ++ d.text.toList.drop stop := by
    rw [hmade, Document.create, String.toList_ofList]
  have hcount : next.charCount = next.text.length := hafter.charCount_eq
  have hlength : start + text.length ≤ next.charCount := by
    have hsize := congrArg List.length htext
    rw [List.length_append, List.length_append, List.length_take_of_le (by omega),
      String.length_toList, String.length_toList] at hsize
    omega
  have hlimit : next.charCount < UInt32.size := by omega
  have hindex (i : Nat) (hi : i ≤ next.charCount) : next.indexOf (next.positionAt i) = .ok i :=
    Document.indexOf_positionAt hafter.lineLengths_ne_nil hlimit hi
  refine ⟨start, stop, hstart, hstop, hle, Document.apply_ranged_iff.mpr ⟨start,
    start + text.length, hindex _ (by omega), hindex _ hlength, by omega, hlength, ?_⟩⟩
  rw [String.toList_ofList, htext, ← String.length_toList, Document.spliced_back hle hbound,
    String.ofList_toList, hafter.uri_eq]
  exact hfresh

/-- A line end and a character of four bytes are taken out, and two line ends are put in. -/
theorem apply_takingBack_lines :
    let operations : List Operation := [.opening "a" "é\n😀b" 1]
    let d : Document := ⟨"a", "é\n😀b", 1, [1, 2]⟩
    let next : Document := ⟨"a", "éx\n\nb", 2, [2, 0, 1]⟩
    ("a", d) ∈ (run operations).entries ∧
      d.apply ⟨some ⟨⟨0, 1⟩, ⟨1, 1⟩⟩, "x\n\n"⟩ 2 = .ok next ∧ next.text.length < UInt32.size ∧
      next.apply ⟨some ⟨⟨0, 1⟩, ⟨2, 0⟩⟩, "\n😀"⟩ 1 = .ok d := by
  intro operations d next
  have hmem : ("a", d) ∈ (run operations).entries := by decide
  have hnext : d.apply ⟨some ⟨⟨0, 1⟩, ⟨1, 1⟩⟩, "x\n\n"⟩ 2 = .ok next :=
    Document.apply_ranged_iff.mpr ⟨1, 3, rfl, rfl, by decide, by decide, by decide⟩
  have hshort : next.text.length < UInt32.size := by decide
  obtain ⟨start, stop, hstart, hstop, -, hback⟩ :=
    apply_takingBack operations "a" d hmem _ _ 2 next hnext hshort
  obtain rfl : 1 = start := Except.ok.inj hstart
  obtain rfl : 3 = stop := Except.ok.inj hstop
  have hchange : d.takingBack next 1 3 "x\n\n".length = ⟨some ⟨⟨0, 1⟩, ⟨2, 0⟩⟩, "\n😀"⟩ := by decide
  rw [hchange] at hback
  exact ⟨hmem, hnext, hshort, hback⟩

end Store

end LanguageServer
