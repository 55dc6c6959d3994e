import LanguageServer.Document.Store
import LanguageServer.Proofs.Document.Lines

/-! # Reachable documents are freshly opened ones

The line index of a document is a cache of its text, which the constructor, both kinds of change and
the closing of a document write independently. A document is *fresh* if opening its text now would
give the same record. Every operation on a store keeps its documents fresh, also a batch of changes
that fails in the middle, so all documents of every run are.

* `Document.Fresh`: the invariant of a document, kept by `apply` and `clear`;
* `Store.AllFresh`: the invariant of a store, kept by `step`;
* `run_fresh`: the documents of every run. -/

namespace LanguageServer

/-! ### Documents -/

namespace Document

/-- The document is what opening its text under the name `key` gives. -/
def Fresh (key : String) (d : Document) : Prop := d = create key d.text d.version

variable {key : String} {d next : Document}

theorem fresh_create (key text : String) (version : Int32) : (create key text version).Fresh key :=
  rfl

theorem Fresh.uri_eq (h : d.Fresh key) : d.uri = key := by
  rw [h]
  rfl

theorem Fresh.lineLengths_eq (h : d.Fresh key) : d.lineLengths = lineLengthsOf d.text.toList := by
  rw [h]
  rfl

theorem Fresh.lineLengths_ne_nil (h : d.Fresh key) : d.lineLengths ≠ [] := by
  rw [h.lineLengths_eq]
  exact lineLengthsOf_ne_nil _

theorem Fresh.charCount_eq (h : d.Fresh key) : d.charCount = d.text.length := by
  rw [h]
  exact charCount_create key d.text d.version

theorem Fresh.apply {change : Change} {version : Int32} (h : d.Fresh key)
    (hnext : d.apply change version = .ok next) : next.Fresh key := by
  unfold Document.apply at hnext
  split at hnext
  · cases hnext
    rw [h.uri_eq]
    exact fresh_create ..
  · next range _ =>
    cases hoffsets : d.offsets range with
    | error e =>
      rw [hoffsets] at hnext
      cases hnext
    | ok ends =>
      rw [hoffsets] at hnext
      cases hnext
      rw [h.uri_eq]
      exact fresh_create ..

theorem Fresh.clear (h : d.Fresh key) : d.clear.Fresh key := by
  show d.clear = create key "" d.version
  rw [← h.uri_eq]
  rfl

end Document

namespace Store

/-! ### One operation -/

theorem applyAll_fresh {key : String} {d : Document} (version : Int32) (changes : List Change)
    (h : d.Fresh key) : (applyAll version d changes).value.1.Fresh key := by
  induction changes generalizing d with
  | nil => exact h
  | cons change changes ih =>
    rw [applyAll]
    split
    · exact h
    · next next hnext => exact ih (h.apply hnext)

/-- All documents are what opening their texts now would give. -/
def AllFresh (s : Store) : Prop := ∀ key d, (key, d) ∈ s.entries → d.Fresh key

variable {s : Store} {uri : String} {d : Document}

theorem mem_of_mem_put {entry : String × Document} {entries : List (String × Document)}
    (h : entry ∈ put uri d entries) : entry = (uri, d) ∨ entry ∈ entries := by
  induction entries with
  | nil => exact Or.inl (List.mem_singleton.mp h)
  | cons first rest ih =>
    rw [put] at h
    split at h
    · rcases List.mem_cons.mp h with rfl | hrest
      · exact Or.inl rfl
      · exact Or.inr (List.mem_cons_of_mem first hrest)
    · rcases List.mem_cons.mp h with rfl | hrest
      · exact Or.inr List.mem_cons_self
      · exact (ih hrest).imp_right (List.mem_cons_of_mem first)

theorem AllFresh.insert (h : s.AllFresh) (hd : d.Fresh uri) : (s.insert uri d).AllFresh := by
  intro key e hmem
  rcases mem_of_mem_put hmem with heq | hold
  · obtain ⟨rfl, rfl⟩ := Prod.mk.inj heq
    exact hd
  · exact h key e hold

theorem AllFresh.get? (h : s.AllFresh) (hd : s.get? uri = some d) : d.Fresh uri := by
  obtain ⟨before, after, hentries, -⟩ := List.lookup_eq_some_iff.mp hd
  refine h uri d ?_
  rw [hentries]
  exact List.mem_append_right before List.mem_cons_self

/-- An operation on the documents of a session. -/
inductive Operation
  | opening (uri text : String) (version : Int32)
  | changing (uri : String) (version : Int32) (changes : List Change)
  | closing (uri : String)
  deriving DecidableEq, Repr

/-- The store after an operation, whether or not it succeeds. -/
def step (s : Store) : Operation → Store
  | .opening uri text version => (s.openDocument uri text version).value
  | .changing uri version changes => (s.applyChanges uri version changes).value.1
  | .closing uri => (s.close uri).value

/-- The store after operations on the empty store. -/
def run (operations : List Operation) : Store := operations.foldl step empty

theorem AllFresh.step (h : s.AllFresh) (operation : Operation) : (s.step operation).AllFresh := by
  cases operation with
  | opening uri text version => exact h.insert (Document.fresh_create uri text version)
  | changing uri version changes =>
    simp only [Store.step, applyChanges]
    cases hd : s.get? uri with
    | none => exact h
    | some d =>
      -- The document is stored whether or not the batch got to its end.
      have hnext := h.insert (applyAll_fresh version changes (h.get? hd))
      simp only [Logged.value_bind]
      split <;> exact hnext
  | closing uri =>
    simp only [Store.step, close]
    cases hd : s.get? uri with
    | none => exact h
    | some d => exact h.insert (h.get? hd).clear

/-! ### Runs -/

theorem AllFresh.foldl (h : s.AllFresh) (operations : List Operation) :
    (operations.foldl Store.step s).AllFresh := by
  induction operations generalizing s with
  | nil => exact h
  | cons operation operations ih => exact ih (h.step operation)

theorem allFresh_run (operations : List Operation) : (run operations).AllFresh := by
  have hempty : empty.AllFresh := fun _ _ hmem => absurd hmem List.not_mem_nil
  exact hempty.foldl operations

/-- **Reachable documents are freshly opened ones.** Every document of a run is the record that
opening its text gives. So it has a line, its line lengths are those of the pieces between the line
ends, and they count the characters of the text, without a subtraction below zero. -/
theorem run_fresh (operations : List Operation) (key : String) (d : Document)
    (h : (key, d) ∈ (run operations).entries) :
    d = Document.create key d.text d.version ∧
    1 ≤ d.lineCount ∧
    d.lineLengths = (Text.pieces '\n' d.text.toList).map List.length ∧
    d.charCount + 1 = Document.total d.lineLengths + d.lineCount ∧
    d.charCount = d.text.length := by
  have hfresh : d.Fresh key := allFresh_run operations key d h
  have hlines : 1 ≤ d.lineCount := List.length_pos_iff.mpr hfresh.lineLengths_ne_nil
  refine ⟨hfresh, hlines, ?_, ?_, hfresh.charCount_eq⟩
  · rw [hfresh.lineLengths_eq, Document.lineLengthsOf_eq_map_pieces]
  · rw [Document.charCount]
    rw [Document.lineCount] at hlines ⊢
    omega

/-- The second change of the batch fails, the first stays made. -/
theorem run_fresh_of_failed_batch :
    let operations : List Operation := [.opening "a" "x\ny" 1,
      .changing "a" 2 [⟨some ⟨⟨0, 1⟩, ⟨0, 1⟩⟩, "\n"⟩, ⟨some ⟨⟨7, 0⟩, ⟨7, 0⟩⟩, "z"⟩],
      .opening "b" "w" 1, .closing "b"]
    let d : Document := ⟨"a", "x\n\ny", 2, [1, 0, 1]⟩
    ("a", d) ∈ (run operations).entries ∧ d = Document.create "a" d.text d.version ∧
      d.charCount = d.text.length := by
  intro operations d
  have hmem : ("a", d) ∈ (run operations).entries := by decide
  have hfresh := run_fresh operations "a" d hmem
  exact ⟨hmem, hfresh.1, hfresh.2.2.2.2⟩

end Store

end LanguageServer
