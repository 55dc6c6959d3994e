import LanguageServer.Language
import LanguageServer.Proofs.Handler.Reachable

/-! # Documents are independent

A call about a document looks at the document that its parameters name and at nothing else, and
changes no other document: `LocalAt`. A call whose parameters cannot be decoded names no document
and changes nothing. So, of the calls that come before, only those that name a document count for
it, whether they succeed, fail, or fail with a part of the changes made.

* `DocumentCall`, `callAll`: calls of the methods about one document, and their answers;
* `call_localAt`, `call_unnamed`: one call;
* `callAll_filter`: a list of calls against those of them that name a document, by induction;
* `callAll_independent`: every list of calls, and any two orders in which calls about different
  documents come. -/

namespace LanguageServer

open Script (Syntactic)

/-! ### Calls about one document -/

/-- The methods about one document. -/
inductive DocumentMethod
  | didOpen | didChange | didClose | hover
  deriving DecidableEq, Repr

/-- The name of a method. -/
def DocumentMethod.name : DocumentMethod → String
  | didOpen => "textDocument/didOpen"
  | didChange => "textDocument/didChange"
  | didClose => "textDocument/didClose"
  | hover => "textDocument/hover"

/-- A call of a method about one document, its parameters not yet decoded. -/
structure DocumentCall where
  method : DocumentMethod
  params : Json

namespace DocumentCall

/-- The document that the parameters name, if they can be decoded. -/
def uri? (c : DocumentCall) : Option String :=
  match c.method with
  | .didOpen => (Handler.decode Params.opened c.params).toOption.map (·.uri)
  | .didChange => (Handler.decode Params.changed c.params).toOption.map (·.uri)
  | .didClose => (Handler.decode Params.closed c.params).toOption
  | .hover => (Handler.decode Params.hover c.params).toOption.map (·.uri)

/-- Whether the call names the document. -/
def names (uri : String) (c : DocumentCall) : Bool := c.uri? = some uri

theorem names_iff {uri : String} {c : DocumentCall} : c.names uri = true ↔ c.uri? = some uri :=
  decide_eq_true_iff

end DocumentCall

namespace Handler

section Language

variable {α : Type} [Syntactic α] (language : Language α)

/-- The state after a call, and its answer. Log events are left out. -/
def call (h : Handler) (c : DocumentCall) : Handler × Answer :=
  (h.handle language c.method.name c.params).value

/-- The state after calls made one after the other, and each call with its answer. -/
def callAll (h : Handler) : List DocumentCall → Handler × List (DocumentCall × Answer)
  | [] => (h, [])
  | c :: calls =>
    ((callAll (h.call language c).1 calls).1,
      (c, (h.call language c).2) :: (callAll (h.call language c).1 calls).2)

/-! ### One call -/

/-- What happens depends on one document only and changes no other. -/
def LocalAt (uri : String) (act : Handler → Handler × Answer) : Prop :=
  ∃ f : Option Document → Option Document × Answer, ∀ h : Handler,
    (act h).2 = (f (h.store.get? uri)).2 ∧
      ∀ name, (act h).1.store.get? name =
        if name = uri then (f (h.store.get? uri)).1 else h.store.get? name

theorem didOpen_localAt {params : Json} {p : Params.Opened}
    (hp : decode Params.opened params = .ok p) :
    LocalAt p.uri fun h => (h.didOpen params).value := by
  refine ⟨fun _ => (some (.create p.uri p.text p.version), .ok (some .null)), fun h => ?_⟩
  unfold didOpen
  simp only [hp]
  exact ⟨rfl, fun name => h.store.get?_insert p.uri name _⟩

theorem didChange_localAt {params : Json} {p : Params.Changed}
    (hp : decode Params.changed params = .ok p) :
    LocalAt p.uri fun h => (h.didChange params).value := by
  let outcome (d : Document) := (Store.applyAll p.version d p.changes).value
  let answer (result : Except DocumentError Unit) : Answer :=
    (result.mapError fun e => .invalidParams e.message).map fun _ => none
  refine ⟨fun stored => stored.elim (none, answer (.error .notFound)) fun d =>
    (some (outcome d).1, answer (outcome d).2), fun h => ?_⟩
  unfold didChange
  simp only [hp, Logged.value_bind, Logged.value_pure, Store.applyChanges]
  cases hd : h.store.get? p.uri with
  | none => exact ⟨rfl, h.store.get?_eq_ite hd⟩
  | some d =>
    have hstored := fun name => h.store.get?_insert p.uri name (outcome d).1
    simp only [Logged.value_bind]
    split
    · next e hresult => exact ⟨by simp [outcome, answer, hresult], hstored⟩
    · next hresult => exact ⟨by simp [outcome, answer, hresult], hstored⟩

theorem didClose_localAt {params : Json} {uri : String}
    (hp : decode Params.closed params = .ok uri) :
    LocalAt uri fun h => (h.didClose params).value := by
  refine ⟨fun d => (d.map Document.clear, .ok none), fun h => ?_⟩
  unfold didClose
  simp only [hp, Logged.value_bind, Logged.value_pure, Store.close, true_and]
  cases hd : h.store.get? uri with
  | none => exact h.store.get?_eq_ite hd
  | some d => exact fun name => h.store.get?_insert uri name d.clear

theorem hover_congr {params : Json} {target : Params.Target}
    (hp : decode Params.hover params = .ok target) {h h' : Handler}
    (hsame : h.store.get? target.uri = h'.store.get? target.uri) :
    (h.hover language params).value = (h'.hover language params).value := by
  unfold hover nodeAt
  rw [hp]
  simp only [hsame]

theorem hover_localAt {params : Json} {target : Params.Target}
    (hp : decode Params.hover params = .ok target) :
    LocalAt target.uri fun h => (h, (h.hover language params).value) := by
  -- the answer is that of a state with this document only
  let only (d : Option Document) : Handler :=
    ⟨⟨(d.map fun d => (target.uri, d)).toList⟩, false, .idle⟩
  have honly : ∀ d, (only d).store.get? target.uri = d := fun d => by
    cases d <;> simp [only, Store.get?]
  refine ⟨fun d => (d, ((only d).hover language params).value), fun h => ⟨?_, ?_⟩⟩
  · exact hover_congr language hp (honly _).symm
  · exact h.store.get?_eq_ite rfl

theorem eq_ok_of_toOption {ε β : Type} {r : Except ε β} {b : β} (h : r.toOption = some b) :
    r = .ok b := by
  cases r with
  | error e => cases h
  | ok c => cases h; rfl

theorem eq_error_of_toOption {ε β : Type} {r : Except ε β} (h : r.toOption = none) :
    ∃ e, r = .error e := by
  cases r with
  | error e => exact ⟨e, rfl⟩
  | ok c => cases h

/-- **A call depends on the document it names only, and changes no other.** -/
theorem call_localAt {c : DocumentCall} {uri : String} (huri : c.uri? = some uri) :
    LocalAt uri fun h => h.call language c := by
  obtain ⟨method, params⟩ := c
  cases method with
  | didOpen =>
    obtain ⟨p, hp, rfl⟩ := Option.map_eq_some_iff.mp huri
    exact didOpen_localAt (eq_ok_of_toOption hp)
  | didChange =>
    obtain ⟨p, hp, rfl⟩ := Option.map_eq_some_iff.mp huri
    exact didChange_localAt (eq_ok_of_toOption hp)
  | didClose => exact didClose_localAt (eq_ok_of_toOption huri)
  | hover =>
    obtain ⟨p, hp, rfl⟩ := Option.map_eq_some_iff.mp huri
    exact hover_localAt language (eq_ok_of_toOption hp)

theorem call_unnamed (h : Handler) {c : DocumentCall} (huri : c.uri? = none) :
    (h.call language c).1 = h := by
  obtain ⟨method, params⟩ := c
  cases method with
  | didOpen =>
    obtain ⟨e, he⟩ := eq_error_of_toOption (Option.map_eq_none_iff.mp huri)
    simp [call, DocumentMethod.name, handle, didOpen, he]
  | didChange =>
    obtain ⟨e, he⟩ := eq_error_of_toOption (Option.map_eq_none_iff.mp huri)
    simp [call, DocumentMethod.name, handle, didChange, he]
  | didClose =>
    obtain ⟨e, he⟩ := eq_error_of_toOption huri
    simp [call, DocumentMethod.name, handle, didClose, he]
  | hover => rfl

/-- A call that does not name a document leaves it as it is. -/
theorem get?_call_of_not_names (h : Handler) {c : DocumentCall} {uri : String}
    (hc : c.names uri = false) : (h.call language c).1.store.get? uri = h.store.get? uri := by
  cases huri : c.uri? with
  | none => rw [call_unnamed language h huri]
  | some other =>
    obtain ⟨f, hf⟩ := call_localAt language huri
    have hne : uri ≠ other := by
      rintro rfl
      rw [DocumentCall.names_iff.mpr huri] at hc
      cases hc
    exact ((hf h).2 uri).trans (if_neg hne)

/-- States with the same document under a name do the same to it, and answer the same, when a call
names it. -/
theorem call_congr {h h' : Handler} {c : DocumentCall} {uri : String}
    (hc : c.names uri = true) (hsame : h.store.get? uri = h'.store.get? uri) :
    (h.call language c).1.store.get? uri = (h'.call language c).1.store.get? uri ∧
      (h.call language c).2 = (h'.call language c).2 := by
  obtain ⟨f, hf⟩ := call_localAt language (DocumentCall.names_iff.mp hc)
  refine ⟨?_, ?_⟩
  · rw [(hf h).2 uri, (hf h').2 uri, if_pos rfl, if_pos rfl, hsame]
  · rw [(hf h).1, (hf h').1, hsame]

/-! ### Lists of calls -/

/-- The answers to the calls that name the document, with the calls. -/
def answersFor (uri : String) (answers : List (DocumentCall × Answer)) :
    List (DocumentCall × Answer) :=
  answers.filter fun answer => answer.1.names uri

theorem answersFor_cons (uri : String) (c : DocumentCall) (answer : Answer)
    (answers : List (DocumentCall × Answer)) :
    answersFor uri ((c, answer) :: answers) =
      if c.names uri then (c, answer) :: answersFor uri answers else answersFor uri answers :=
  List.filter_cons

/-- **Calls that do not name a document do not count for it:** neither for what is stored under the
name nor for the answers to the calls that name it. -/
theorem callAll_filter {h h' : Handler} {uri : String}
    (hsame : h.store.get? uri = h'.store.get? uri) (calls : List DocumentCall) :
    (callAll language h calls).1.store.get? uri =
        (callAll language h' (calls.filter (·.names uri))).1.store.get? uri ∧
      answersFor uri (callAll language h calls).2 =
        (callAll language h' (calls.filter (·.names uri))).2 := by
  induction calls generalizing h h' with
  | nil => exact ⟨hsame, rfl⟩
  | cons c calls ih =>
    by_cases hc : c.names uri = true
    · obtain ⟨hnext, hanswer⟩ := call_congr language hc hsame
      obtain ⟨hstore, hanswers⟩ := ih hnext
      rw [List.filter_cons_of_pos hc, callAll, callAll]
      refine ⟨hstore, ?_⟩
      rw [answersFor_cons, if_pos hc, hanswers, hanswer]
    · have hother := get?_call_of_not_names language h (Bool.eq_false_iff.mpr hc)
      rw [List.filter_cons_of_neg hc, callAll, answersFor_cons, if_neg hc]
      exact ih (hother.trans hsame)

theorem distinct_callAll {h : Handler} (hd : h.store.Distinct) (calls : List DocumentCall) :
    (callAll language h calls).1.store.Distinct := by
  induction calls generalizing h with
  | nil => exact hd
  | cons c calls ih =>
    exact ih (handle_keeps language (fun _ operation hs => hs.step operation) hd c.method.name
      c.params)

/-- **Documents are independent.** Whatever calls are made, succeeding or failing, from whatever
state, the document under a name at the end, and the answers to the calls that name it, are those of
the calls that name it, made alone. So two lists of calls in which every document is named by the
same calls in the same order, however those of different documents come between each other, give
every document the same answers and the same end; and, where no name stands twice, the same
entries. -/
theorem callAll_independent (h : Handler) (calls : List DocumentCall) :
    (∀ uri,
      (callAll language h calls).1.store.get? uri =
          (callAll language h (calls.filter (·.names uri))).1.store.get? uri ∧
        answersFor uri (callAll language h calls).2 =
          (callAll language h (calls.filter (·.names uri))).2) ∧
      ∀ others : List DocumentCall,
        (∀ uri, calls.filter (·.names uri) = others.filter (·.names uri)) →
        (∀ uri,
          (callAll language h calls).1.store.get? uri =
              (callAll language h others).1.store.get? uri ∧
            answersFor uri (callAll language h calls).2 =
              answersFor uri (callAll language h others).2) ∧
          (h.store.Distinct →
            (callAll language h calls).1.store.entries.Perm
              (callAll language h others).1.store.entries) := by
  refine ⟨fun uri => callAll_filter language rfl calls, fun others hothers => ?_⟩
  have hagree : ∀ uri,
      (callAll language h calls).1.store.get? uri =
          (callAll language h others).1.store.get? uri ∧
        answersFor uri (callAll language h calls).2 =
          answersFor uri (callAll language h others).2 := by
    intro uri
    have hsame : h.store.get? uri = h.store.get? uri := rfl
    obtain ⟨hstore, hanswers⟩ := callAll_filter language hsame calls
    obtain ⟨hstore', hanswers'⟩ := callAll_filter language hsame others
    rw [hstore, hstore', hanswers, hanswers', hothers uri]
    exact ⟨rfl, rfl⟩
  refine ⟨hagree, fun hd => ?_⟩
  exact (distinct_callAll language hd calls).perm (distinct_callAll language hd others)
    fun uri => (hagree uri).1

end Language

/-- Two documents, one of them changed by a batch whose second change fails, in two orders. -/
theorem callAll_independent_failed_batch :
    let opening (uri text : String) : DocumentCall :=
      ⟨.didOpen, .object [("textDocument", .object [("languageId", .string ""),
        ("text", .string text), ("uri", .string uri), ("version", .integer 1)])]⟩
    let place : Json := .object [("character", .integer 0), ("line", .integer 7)]
    let changing : DocumentCall :=
      ⟨.didChange, .object [("contentChanges", .array [.object [("text", .string "z")],
          .object [("range", .object [("end", place), ("start", place)]), ("text", .string "")]]),
        ("textDocument", .object [("uri", .string "a"), ("version", .integer 2)])]⟩
    let closing : DocumentCall :=
      ⟨.didClose, .object [("textDocument", .object [("uri", .string "b")])]⟩
    let calls := [opening "a" "x", opening "b" "y", changing, closing]
    let others := [opening "b" "y", closing, opening "a" "x", changing]
    (∀ uri, calls.filter (·.names uri) = others.filter (·.names uri)) ∧
      fresh.store.Distinct ∧
      (callAll Language.builtin fresh calls).1.store.entries.Perm
        (callAll Language.builtin fresh others).1.store.entries ∧
      (callAll Language.builtin fresh calls).1.store.get? "a" =
        some (Document.create "a" "z" 2) := by
  intro opening place changing closing calls others
  have hopening : (opening "a" "x").uri? = some "a" := by rfl
  have hopening' : (opening "b" "y").uri? = some "b" := by rfl
  have hchanging : changing.uri? = some "a" := by rfl
  have hclosing : closing.uri? = some "b" := by rfl
  have hsame : ∀ uri, calls.filter (·.names uri) = others.filter (·.names uri) := by
    intro uri
    by_cases ha : uri = "a"
    · simp [calls, others, DocumentCall.names, hopening, hopening', hchanging, hclosing, ha]
    · by_cases hb : uri = "b"
      · simp [calls, others, DocumentCall.names, hopening, hopening', hchanging, hclosing, hb]
      · simp [calls, others, DocumentCall.names, hopening, hopening', hchanging, hclosing,
          Ne.symm ha, Ne.symm hb]
  have hagree := (callAll_independent Language.builtin fresh calls).2 others hsame
  refine ⟨hsame, Store.distinct_empty, hagree.2 Store.distinct_empty, ?_⟩
  rw [(hagree.1 "a").1]
  rfl

end Handler

end LanguageServer
