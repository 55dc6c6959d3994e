import LanguageServer.Proofs.Document.Offsets
import LanguageServer.Proofs.Document.Splice
import Mathlib.Data.List.Forall2

/-! # Batches of changes

The changes of a document come in batches. A batch is not atomic: the changes before the first that
fails stay made, so what a failed batch leaves is what a shorter one leaves that succeeds.

Each change is in the positions of the document that those before it leave. If the changes are
listed from the end of the text to its start, the positions of the document before the batch do as
well: what a change does to the text, and so to the lines, is behind the ranges of all later ones.
Such a batch succeeds and makes all its changes at once, as an editor with several cursors asks for.

* `applyAll_error`: the changes before the one that fails;
* `version_applyAll`: the version after a batch, which an empty one does not touch;
* `Edit.Of.of_prefix`: ranges stay where they are if the text up to their ends stays;
* `Edit.Of.apply`: one change in the front part of the text;
* `applyAll_together`: the changes from the end of the text, by induction on their list;
* `applyChanges_together`: all documents of a run. -/

namespace LanguageServer

/-! ### Changes made one after the other -/

theorem Document.version_apply {d next : Document} {change : Change} {version : Int32}
    (h : d.apply change version = .ok next) : next.version = version := by
  unfold apply at h
  split at h
  · cases h
    rfl
  · next range _ =>
    cases hoffsets : d.offsets range with
    | error e => rw [hoffsets] at h; cases h
    | ok ends => rw [hoffsets] at h; cases h; rfl

namespace Store

variable {version : Int32} {d next : Document} {changes : List Change}

theorem applyAll_error_cons {change : Change} {e : DocumentError}
    (h : d.apply change version = .error e) :
    (applyAll version d (change :: changes)).value = (d, .error e) := by
  rw [applyAll, h]
  rfl

theorem applyAll_ok_cons {change : Change} (h : d.apply change version = .ok next) :
    (applyAll version d (change :: changes)).value = (applyAll version next changes).value := by
  rw [applyAll, h]
  rfl

/-- **A batch that fails leaves what its changes before the failing one leave.** -/
theorem applyAll_error {e : DocumentError}
    (h : (applyAll version d changes).value = (next, .error e)) :
    ∃ k < changes.length, (applyAll version d (changes.take k)).value = (next, .ok ()) := by
  induction changes generalizing d with
  | nil => cases h
  | cons change changes ih =>
    cases hfirst : d.apply change version with
    | error e' =>
      rw [applyAll_error_cons hfirst] at h
      cases h
      exact ⟨0, Nat.succ_pos _, rfl⟩
    | ok d' =>
      rw [applyAll_ok_cons hfirst] at h
      obtain ⟨k, hk, hmade⟩ := ih h
      refine ⟨k + 1, Nat.succ_lt_succ hk, ?_⟩
      rw [List.take_succ_cons, applyAll_ok_cons hfirst]
      exact hmade

/-- **The version after a batch:** the one given, if there is a change to give it to. -/
theorem version_applyAll (h : (applyAll version d changes).value = (next, .ok ())) :
    next.version = if changes = [] then d.version else version := by
  induction changes generalizing d with
  | nil => cases h; rfl
  | cons change changes ih =>
    cases hfirst : d.apply change version with
    | error e =>
      rw [applyAll_error_cons hfirst] at h
      cases h
    | ok d' =>
      rw [applyAll_ok_cons hfirst] at h
      rw [ih h, Document.version_apply hfirst, ite_self, if_neg (List.cons_ne_nil _ _)]

end Store

/-! ### Changes from the end of the text to its start -/

/-- A replacement of the characters from the offset `start` up to `stop` by a text. -/
structure Edit where
  start : Nat
  stop : Nat
  text : String
  deriving DecidableEq, Repr

namespace Edit

/-- **The edits are listed from the end of a text to its start:** each ends where the one listed
before it starts, or earlier, and all are among the first `size` characters. -/
structure Backwards (size : Nat) (edits : List Edit) : Prop where
  bounds : ∀ edit ∈ edits, edit.start ≤ edit.stop ∧ edit.stop ≤ size
  apart : edits.IsChain fun edit next => next.stop ≤ edit.start

/-- **The first `size` characters of a text with all edits made at once.** All offsets are those of
the text before the edits, and the characters between the edits are taken from it. -/
def together (cs : List Char) (size : Nat) : List Edit → List Char
  | [] => cs.take size
  | edit :: edits =>
    together cs edit.start edits ++ edit.text.toList ++ (cs.take size).drop edit.stop

/-- The change asks for the edit by two positions of the document. -/
def Of (d : Document) (edit : Edit) (change : Change) : Prop :=
  ∃ range, change = ⟨some range, edit.text⟩ ∧ d.indexOf range.start = .ok edit.start ∧
    d.indexOf range.stop = .ok edit.stop

theorem Backwards.tail {size : Nat} {edit : Edit} {edits : List Edit}
    (h : Backwards size (edit :: edits)) : Backwards edit.start edits := by
  induction edits generalizing size edit with
  | nil => exact ⟨nofun, List.IsChain.nil⟩
  | cons next edits ih =>
    obtain ⟨hnext, hapart⟩ := List.isChain_cons_cons.mp h.apart
    have hbounds := (List.forall_mem_cons.mp h.bounds).2
    have hlater := ih ⟨hbounds, hapart⟩
    have hfirst := hbounds next List.mem_cons_self
    refine ⟨List.forall_mem_cons.mpr ⟨⟨hfirst.1, hnext⟩, fun later hmem => ?_⟩, hapart⟩
    have hbefore := hlater.bounds later hmem
    exact ⟨hbefore.1, by omega⟩

section Of
variable {d d' : Document} {front behind behind' : List Char} {edit : Edit} {change : Change}

/-- **A change asks for the same edit** in every document that begins alike up to its end. -/
theorem Of.of_prefix (h : Of d edit change)
    (hlines : d.lineLengths = Document.lineLengthsOf (front ++ behind))
    (hlines' : d'.lineLengths = Document.lineLengthsOf (front ++ behind'))
    (hle : edit.start ≤ edit.stop ∧ edit.stop ≤ front.length) : Of d' edit change := by
  obtain ⟨range, hrange, hstart, hstop⟩ := h
  exact ⟨range, hrange,
    Document.indexOf_of_prefix hlines hlines' hstart (Nat.le_trans hle.1 hle.2),
    Document.indexOf_of_prefix hlines hlines' hstop hle.2⟩

/-- **One change,** in the front part of the text: what it puts in and all that stands behind it is
then behind the text before it. -/
theorem Of.apply {key : String} (version : Int32) (h : Of d edit change) (hfresh : d.Fresh key)
    (htext : d.text.toList = front ++ behind)
    (hle : edit.start ≤ edit.stop ∧ edit.stop ≤ front.length) :
    ∃ next, d.apply change version = .ok next ∧ next.text.toList =
      front.take edit.start ++ (edit.text.toList ++ front.drop edit.stop ++ behind) := by
  obtain ⟨range, rfl, hstart, hstop⟩ := h
  have hcount : d.charCount = front.length + behind.length := by
    rw [hfresh.charCount_eq, ← String.length_toList, htext, List.length_append]
  refine ⟨_, Document.apply_ranged_iff.mpr
    ⟨edit.start, edit.stop, hstart, hstop, hle.1, by omega, rfl⟩, ?_⟩
  rw [Document.create, String.toList_ofList, htext, List.take_append_of_le_length (by omega),
    List.drop_append_of_le_length hle.2]
  simp only [List.append_assoc]

end Of

end Edit

namespace Store

open Edit (Backwards Of together)

/-- **Changes from the end of the text to its start** are made as they were asked for. The first
`size` characters are still those of the text before the changes, and `behind` is what the changes
made so far have left behind them. -/
theorem applyAll_together {cs behind : List Char} {key : String} {size : Nat} (version : Int32)
    {d : Document} {edits : List Edit} {changes : List Change} (hfresh : d.Fresh key)
    (htext : d.text.toList = cs.take size ++ behind) (hsize : size ≤ cs.length)
    (hedits : Backwards size edits) (hchanges : List.Forall₂ (Of d) edits changes) :
    ∃ next, (applyAll version d changes).value = (next, .ok ()) ∧
      next.text.toList = together cs size edits ++ behind := by
  induction edits generalizing behind size d changes with
  | nil =>
    cases hchanges
    exact ⟨d, rfl, htext⟩
  | cons edit edits ih =>
    cases hchanges with
    | @cons _ change _ changes hchange hchanges =>
      obtain ⟨hle, hbound⟩ := hedits.bounds edit List.mem_cons_self
      have hfront : (cs.take size).length = size := List.length_take_of_le hsize
      have hbefore : (cs.take edit.start).length = edit.start := List.length_take_of_le (by omega)
      have hshorter : (cs.take size).take edit.start = cs.take edit.start := by
        rw [List.take_take, Nat.min_eq_left (by omega)]
      obtain ⟨made, happly, hmade⟩ := hchange.apply version hfresh htext (by omega)
      rw [hshorter] at hmade
      have hmadeFresh : made.Fresh key := hfresh.apply happly
      -- both texts begin with the text before this change, where all other ranges are
      have hold : d.lineLengths = Document.lineLengthsOf
          (cs.take edit.start ++ ((cs.take size).drop edit.start ++ behind)) := by
        rw [hfresh.lineLengths_eq, htext, ← List.append_assoc, ← hshorter, List.take_append_drop]
      have hnew := hmadeFresh.lineLengths_eq
      rw [hmade] at hnew
      have hothers : List.Forall₂ (Of made) edits changes := by
        have hbounds := hedits.tail.bounds
        refine ((List.forall₂_and_left edits changes).mpr ⟨hbounds, hchanges⟩).imp ?_
        rintro other change ⟨hother, hof⟩
        exact hof.of_prefix hold hnew (by omega)
      obtain ⟨next, hnext, hresult⟩ := ih hmadeFresh hmade (by omega) hedits.tail hothers
      refine ⟨next, (applyAll_ok_cons happly).trans hnext, ?_⟩
      rw [hresult, together]
      simp only [List.append_assoc]

/-- **Changes listed from the end of the text to its start are made at once.** Let the ranges of a
batch of changes, in the positions of the document before the batch, be in the text, and each end
where the one listed before it starts or earlier. Then the batch succeeds, although each change is
in the positions of the document that those before it leave, and the text after it is the text
before it with all ranges replaced together. -/
theorem applyChanges_together (operations : List Operation) (uri : String) (d : Document)
    (h : (run operations).get? uri = some d) (version : Int32) (edits : List Edit)
    (changes : List Change) (hchanges : List.Forall₂ (Of d) edits changes)
    (hedits : Backwards d.charCount edits) :
    ∃ next, ((run operations).applyChanges uri version changes).value =
        ((run operations).insert uri next, .ok ()) ∧
      next.text.toList = together d.text.toList d.charCount edits ∧
      next.version = (if changes = [] then d.version else version) ∧ next.Fresh uri := by
  have hfresh : d.Fresh uri := (allFresh_run operations).get? h
  have hcount : d.charCount = d.text.toList.length := by
    rw [hfresh.charCount_eq, String.length_toList]
  have hwhole : d.text.toList = d.text.toList.take d.charCount ++ [] := by
    rw [hcount, List.take_length, List.append_nil]
  obtain ⟨next, hnext, htext⟩ :=
    applyAll_together version hfresh hwhole (Nat.le_of_eq hcount) hedits hchanges
  refine ⟨next, ?_, ?_, version_applyAll hnext, ?_⟩
  · simp only [applyChanges, h, Logged.value_bind, hnext]
    rfl
  · rw [htext, List.append_nil]
  · have hlast := applyAll_fresh version changes hfresh
    rw [hnext] at hlast
    exact hlast

/-- Three ranges that touch, the second of them given by a character behind the end of its line; the
changes before it add a line and those behind it take lines away. -/
theorem applyChanges_together_touching :
    let operations : List Operation := [.opening "a" "aé\nbc\n😀d" 1]
    let d : Document := ⟨"a", "aé\nbc\n😀d", 1, [2, 2, 2]⟩
    let edits : List Edit := [⟨6, 7, "x\ny"⟩, ⟨3, 6, ""⟩, ⟨1, 3, "€\n"⟩]
    let changes : List Change := [⟨some ⟨⟨2, 0⟩, ⟨2, 1⟩⟩, "x\ny"⟩, ⟨some ⟨⟨0, 3⟩, ⟨2, 0⟩⟩, ""⟩,
      ⟨some ⟨⟨0, 1⟩, ⟨1, 0⟩⟩, "€\n"⟩]
    (run operations).get? "a" = some d ∧ List.Forall₂ (Of d) edits changes ∧
      Backwards d.charCount edits ∧ ∃ next, ((run operations).applyChanges "a" 2 changes).value =
          ((run operations).insert "a" next, .ok ()) ∧
        next.text = "a€\nx\nyd" ∧ next.lineLengths = [2, 1, 2] := by
  intro operations d edits changes
  have hd : (run operations).get? "a" = some d := by decide
  have hchanges : List.Forall₂ (Of d) edits changes :=
    .cons ⟨_, rfl, rfl, rfl⟩ (.cons ⟨_, rfl, rfl, rfl⟩ (.cons ⟨_, rfl, rfl, rfl⟩ .nil))
  have hedits : Backwards d.charCount edits := ⟨by decide, by decide⟩
  obtain ⟨next, hnext, htext, -, hfresh⟩ :=
    applyChanges_together operations "a" d hd 2 edits changes hchanges hedits
  have hwhole : next.text = "a€\nx\nyd" := by
    rw [← String.toList_inj, htext]
    decide
  refine ⟨hd, hchanges, hedits, next, hnext, hwhole, ?_⟩
  rw [hfresh.lineLengths_eq, hwhole]
  decide

end Store

end LanguageServer
