import LanguageServer.Proofs.Document.Batch
import LanguageServer.Proofs.Handler.Batch
import LanguageServer.Proofs.Handler.Independent
import LanguageServer.Proofs.Session.Signal

/-! # What a call leaves behind

A call that fails changes nothing, and neither does one that only asks; a call about a document
changes that document at most, and no document is ever forgotten. The one exception is a batch of
changes that fails in the middle: it leaves what the same call with its first changes only leaves.

* `Effect`, `handle_effect`: everything that a call can do, with its answer;
* `Effect.failed`, `Effect.batch` and so on: one rule each, read off that relation;
* `handle_firstChanges`: a batch that is stopped, against the same call with fewer changes;
* `contains_later`: names stay, whatever calls come later;
* `handle_contained`: the rules together, for every call in every state. -/

namespace LanguageServer

open Script (Syntactic)

namespace Handler

theorem decode_eq_ok_iff {β : Type} {decoder : Json.Decoder β} {params : Json} {b : β} :
    decode decoder params = .ok b ↔ decoder params = .ok b := by
  unfold decode
  cases decoder params with
  | error cause => exact ⟨nofun, nofun⟩
  | ok b' => exact ⟨fun h => by cases h; rfl, fun h => by cases h; rfl⟩

/-! ### Everything that a call can do -/

/-- The methods that can change the state. -/
def writers : List String :=
  ["textDocument/didOpen", "textDocument/didChange", "textDocument/didClose", "shutdown", "exit"]

/-- The parameters are those of changes of a stored document. -/
def ChangesStored (h : Handler) (params : Json) (p : Params.Changed) : Prop :=
  decode Params.changed params = .ok p ∧ h.store.contains p.uri = true

/-- **Everything that a call can do:** the method, the state after the call, and the answer. -/
inductive Effect (h : Handler) (params : Json) : String → Handler → Answer → Prop
  | refused {method : String} (e : ResponseError)
      (hm : method = "textDocument/didChange" → ∀ p, ¬ ChangesStored h params p) :
      Effect h params method h (.error e)
  | asked {method : String} (answer : Answer) (hm : method ∉ writers) :
      Effect h params method h answer
  | opened {p : Params.Opened} (hp : decode Params.opened params = .ok p) :
      Effect h params "textDocument/didOpen"
        { h with store := h.store.insert p.uri (.create p.uri p.text p.version) } (.ok (some .null))
  | changed {p : Params.Changed} {d next : Document} (hp : decode Params.changed params = .ok p)
      (hd : h.store.get? p.uri = some d)
      (hmade : (Store.applyAll p.version d p.changes).value = (next, .ok ())) :
      Effect h params "textDocument/didChange"
        { h with store := h.store.insert p.uri next } (.ok none)
  | stopped {p : Params.Changed} {d next : Document} {e : DocumentError}
      (hp : decode Params.changed params = .ok p) (hd : h.store.get? p.uri = some d)
      (hmade : (Store.applyAll p.version d p.changes).value = (next, .error e)) :
      Effect h params "textDocument/didChange"
        { h with store := h.store.insert p.uri next } (.error (.invalidParams e.message))
  | closed {uri : String} {d : Document} (hp : decode Params.closed params = .ok uri)
      (hd : h.store.get? uri = some d) :
      Effect h params "textDocument/didClose"
        { h with store := h.store.insert uri d.clear } (.ok none)
  | unknown {uri : String} (hp : decode Params.closed params = .ok uri)
      (hd : h.store.get? uri = none) : Effect h params "textDocument/didClose" h (.ok none)
  | shutdown :
      Effect h params "shutdown" { h with shutdownRequested := true } (.ok (some .null))
  | exit :
      Effect h params "exit" { h with signal := (h.signal.trigger h.shutdownRequested).1 }
        (.ok none)

theorem didOpen_effect (h : Handler) (params : Json) :
    Effect h params "textDocument/didOpen" (h.didOpen params).value.1
      (h.didOpen params).value.2 := by
  unfold didOpen
  split
  · next e _ => exact .refused e nofun
  · next p hp => exact .opened hp

theorem didChange_effect (h : Handler) (params : Json) :
    Effect h params "textDocument/didChange" (h.didChange params).value.1
      (h.didChange params).value.2 := by
  unfold didChange
  split
  · next e he =>
    refine .refused e fun _ p hp => ?_
    rw [hp.1] at he
    cases he
  · next p hp =>
    simp only [Logged.value_bind, Logged.value_pure, Store.applyChanges]
    cases hd : h.store.get? p.uri with
    | none =>
      refine .refused _ fun _ q hq => ?_
      obtain rfl : p = q := Except.ok.inj (hp.symm.trans hq.1)
      have hstored := hq.2
      rw [Store.contains, hd] at hstored
      cases hstored
    | some d =>
      simp only [Logged.value_bind]
      split
      · next e hresult => exact .stopped hp hd (Prod.ext rfl hresult)
      · next hresult => exact .changed hp hd (Prod.ext rfl hresult)

theorem didClose_effect (h : Handler) (params : Json) :
    Effect h params "textDocument/didClose" (h.didClose params).value.1
      (h.didClose params).value.2 := by
  unfold didClose
  split
  · next e _ => exact .refused e nofun
  · next uri hp =>
    simp only [Logged.value_bind, Logged.value_pure, Store.close]
    cases hd : h.store.get? uri with
    | none => exact .unknown hp hd
    | some d => exact .closed hp hd

section Language

variable {α : Type} [Syntactic α] (language : Language α)

/-- **A call does one of these things.** -/
theorem handle_effect (h : Handler) (method : String) (params : Json) :
    Effect h params method (h.handle language method params).value.1
      (h.handle language method params).value.2 := by
  unfold handle
  simp only [Logged.value_bind]
  split
  · exact .asked _ (by decide)
  · exact .asked _ (by decide)
  · exact .asked _ (by decide)
  · exact didOpen_effect h params
  · exact didChange_effect h params
  · exact didClose_effect h params
  · exact .asked _ (by decide)
  · exact .asked _ (by decide)
  · exact .asked _ (by decide)
  · exact .shutdown
  · rw [exit_value]
    exact .exit
  · exact .asked _ (by simp_all [writers])

end Language

/-! ### One rule at a time -/

namespace Effect

variable {h next : Handler} {params : Json} {method : String} {answer : Answer}

/-- A failure changes nothing, unless it stops a batch of changes. -/
theorem failed {e : ResponseError} (heffect : Effect h params method next (.error e))
    (hm : method = "textDocument/didChange" → ∀ p, ¬ ChangesStored h params p) : next = h := by
  cases heffect with
  | refused | asked => rfl
  | stopped hp hd => exact absurd ⟨hp, by rw [Store.contains, hd]; rfl⟩ (hm rfl _)

theorem batch {e : ResponseError} {p : Params.Changed}
    (heffect : Effect h params method next (.error e))
    (hm : method = "textDocument/didChange") (hstored : ChangesStored h params p) :
    ∃ k < p.changes.length, ∃ d made, h.store.get? p.uri = some d ∧
      (Store.applyAll p.version d (p.changes.take k)).value = (made, .ok ()) ∧
      next = { h with store := h.store.insert p.uri made } := by
  cases heffect with
  | refused _ hnot => exact absurd hstored (hnot hm p)
  | asked _ hnot => exact absurd (by rw [hm]; decide) hnot
  | @stopped q d made _ hp hd hmade =>
    obtain rfl : q = p := Except.ok.inj (hp.symm.trans hstored.1)
    obtain ⟨k, hk, hfirst⟩ := Store.applyAll_error hmade
    exact ⟨k, hk, d, made, hd, hfirst, rfl⟩

theorem changed_version {value : Option Json}
    (heffect : Effect h params method next (.ok value)) (hm : method = "textDocument/didChange") :
    ∃ p d made, decode Params.changed params = .ok p ∧ h.store.get? p.uri = some d ∧
      next.store.get? p.uri = some made ∧
      made.version = if p.changes = [] then d.version else p.version := by
  cases heffect with
  | asked _ hnot => exact absurd (by rw [hm]; decide) hnot
  | @changed p d made hp hd hmade =>
    refine ⟨p, d, made, hp, hd, ?_, Store.version_applyAll hmade⟩
    rw [Store.get?_insert, if_pos rfl]
  | opened | closed | unknown | shutdown | exit => exact absurd hm (by decide)

theorem closed_version (heffect : Effect h params method next answer)
    (hm : method = "textDocument/didClose") (name : String) :
    (next.store.get? name).map Document.version = (h.store.get? name).map Document.version := by
  cases heffect with
  | refused | asked | unknown => rfl
  | @closed uri d _ hd =>
    rw [Store.get?_insert]
    split
    · next hname =>
      rw [hname, hd]
      rfl
    · rfl
  | opened | changed | stopped | shutdown | exit => exact absurd hm (by decide)

theorem store_eq (heffect : Effect h params method next answer)
    (hm : method ∉ ["textDocument/didOpen", "textDocument/didChange", "textDocument/didClose"]) :
    next.store = h.store := by
  cases heffect with
  | refused | asked | unknown | shutdown | exit => rfl
  | opened | changed | stopped | closed => exact absurd (by decide) hm

end Effect

/-! ### All rules -/

section Language

variable {α : Type} [Syntactic α] (language : Language α)

/-- The state after further calls. -/
def later (h : Handler) (calls : List (String × Json)) : Handler :=
  calls.foldl (fun h call => (h.handle language call.1 call.2).value.1) h

/-- **No document is forgotten,** whatever calls come later. -/
theorem contains_later {h : Handler} {name : String} (hname : h.store.contains name = true)
    (calls : List (String × Json)) : (h.later language calls).store.contains name = true :=
  foldl_keeps language (P := fun s => s.contains name = true)
    (fun _ operation hs => Store.contains_step hs operation) hname calls

/-- A batch that is stopped leaves what the same call with its first changes only leaves, and this
call succeeds. -/
theorem handle_firstChanges {h : Handler} {params : Json} {p : Params.Changed} {e : ResponseError}
    (hstored : ChangesStored h params p)
    (he : (h.handle language "textDocument/didChange" params).value.2 = .error e) :
    ∃ k < p.changes.length,
      decode Params.changed (Params.firstChanges k params) =
        .ok { p with changes := p.changes.take k } ∧
      (h.handle language "textDocument/didChange" (Params.firstChanges k params)).value =
        ((h.handle language "textDocument/didChange" params).value.1, .ok none) := by
  have heffect := handle_effect language h "textDocument/didChange" params
  rw [he] at heffect
  obtain ⟨k, hk, d, made, hd, hmade, hnext⟩ := heffect.batch rfl hstored
  have hfirst : decode Params.changed (Params.firstChanges k params) =
      .ok { p with changes := p.changes.take k } :=
    decode_eq_ok_iff.mpr (Params.changed_firstChanges (decode_eq_ok_iff.mp hstored.1) k)
  refine ⟨k, hk, hfirst, ?_⟩
  -- the shorter batch runs to its end, on the same document
  rw [hnext]
  simp only [handle, didChange, hfirst, Store.applyChanges, hd, Logged.value_bind, hmade,
    Logged.value_pure]
  rfl

/-- The rules for what a call leaves: the state before it, the method, its parameters, the state
after it, and the answer. A call that fails changes nothing, unless it changes a stored document; if
it does, all is as after the same call with the first changes only, which succeeds. A call changes
at most the document that it names, and a document that is there stays, also through all calls that
come later. Changes that were made set the version, closing keeps it, and the other methods leave
the documents alone. Only a shutdown changes the request for one, and only an exit changes the
signal. -/
structure Contained (h : Handler) (method : String) (params : Json) (next : Handler)
    (answer : Answer) : Prop where
  failed : ∀ e, answer = .error e →
    (method = "textDocument/didChange" → ∀ p, ¬ ChangesStored h params p) → next = h
  stopped : ∀ e, answer = .error e → method = "textDocument/didChange" →
    ∀ p, ChangesStored h params p → ∃ k < p.changes.length,
      decode Params.changed (Params.firstChanges k params) =
        .ok { p with changes := p.changes.take k } ∧
      (h.handle language method (Params.firstChanges k params)).value = (next, .ok none)
  single : ∀ m : DocumentMethod, method = m.name → ∀ name,
    (DocumentCall.mk m params).uri? ≠ some name → next.store.get? name = h.store.get? name
  lasting : ∀ name, h.store.contains name = true →
    ∀ calls, (next.later language calls).store.contains name = true
  changed : ∀ value, answer = .ok value → method = "textDocument/didChange" →
    ∃ p d made, decode Params.changed params = .ok p ∧ h.store.get? p.uri = some d ∧
      next.store.get? p.uri = some made ∧
      made.version = if p.changes = [] then d.version else p.version
  closed : method = "textDocument/didClose" → ∀ name,
    (next.store.get? name).map Document.version = (h.store.get? name).map Document.version
  others : method ∉ ["textDocument/didOpen", "textDocument/didChange", "textDocument/didClose"] →
    next.store = h.store
  shutdown : method ≠ "shutdown" → next.shutdownRequested = h.shutdownRequested
  exit : method ≠ "exit" → next.signal = h.signal

/-- **What a call leaves behind,** in every state, for every method and all parameters. -/
theorem handle_contained (h : Handler) (method : String) (params : Json) :
    Contained language h method params (h.handle language method params).value.1
      (h.handle language method params).value.2 := by
  have heffect := handle_effect language h method params
  obtain ⟨hsignal, hshutdown⟩ := handle_flags language h method params
  refine
    { failed := fun e he hm => Effect.failed (he ▸ heffect) hm
      stopped := ?_
      single := ?_
      lasting := ?_
      changed := fun value hv hm => Effect.changed_version (hv ▸ heffect) hm
      closed := heffect.closed_version
      others := heffect.store_eq
      shutdown := ?_
      exit := ?_ }
  · rintro e he rfl p hstored
    exact handle_firstChanges language hstored he
  · rintro m rfl name hname
    refine get?_call_of_not_names language h (c := ⟨m, params⟩) ?_
    exact Bool.eq_false_iff.mpr fun hnames => hname (DocumentCall.names_iff.mp hnames)
  · exact fun name hname calls => contains_later language hname ((method, params) :: calls)
  · intro hm
    rw [hshutdown, beq_false_of_ne hm, Bool.or_false]
  · intro hm
    rw [hsignal, if_neg hm]

end Language

/-- The second change of a batch fails and the first stays made, so that the rule for batches that
are stopped is met with one change. -/
theorem handle_contained_failed_batch :
    let place : Json := .object [("character", .integer 0), ("line", .integer 7)]
    let params : Json := .object [("contentChanges", .array [.object [("text", .string "z")],
        .object [("range", .object [("end", place), ("start", place)]), ("text", .string "")]]),
      ("textDocument", .object [("uri", .string "a"), ("version", .integer 2)])]
    let h : Handler := ⟨⟨[("a", .create "a" "x" 1)]⟩, false, .idle⟩
    let result := (h.handle Language.builtin "textDocument/didChange" params).value
    result.2 = .error (.invalidParams "line 7 is out of range") ∧
      result.1 = ⟨⟨[("a", .create "a" "z" 2)]⟩, false, .idle⟩ ∧
      Contained Language.builtin h "textDocument/didChange" params result.1 result.2 :=
  ⟨rfl, rfl, handle_contained ..⟩

end Handler

end LanguageServer
