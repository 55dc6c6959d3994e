import LanguageServer.Handler
import LanguageServer.Proofs.Json.Value

/-! # Answers can be sent

Whatever method is asked for, in whatever state and with whatever parameters, a value that the
handler answers is canonical, so it survives the way over the wire, and an error that it answers
carries no data.

* `canonical_capabilities`, `Hover.canonical_toJson` and so on: the values;
* `decode_data`, `nodeAt_data`: the errors;
* `handle_sendable`: all methods. -/

namespace LanguageServer

open Json (Canonical canonical_ofMembers)

/-! ### Values -/

theorem Position.canonical_toJson (p : Position) (depth : Nat) :
    Canonical (depth + 1) p.toJson := by
  have hline := p.line.toNat_lt
  have hcharacter := p.character.toNat_lt
  refine canonical_ofMembers ?_
  simp only [List.forall_mem_cons, Json.canonical_integer]
  refine ⟨?_, ?_, by simp⟩
  · omega
  · omega

theorem Hover.canonical_toJson (h : Hover) (depth : Nat) : Canonical (depth + 3) h.toJson := by
  have hrange : Canonical (depth + 2) h.range.toJson := by
    refine canonical_ofMembers ?_
    simp only [List.forall_mem_cons]
    exact ⟨h.range.start.canonical_toJson depth, h.range.stop.canonical_toJson depth, by simp⟩
  refine canonical_ofMembers ?_
  simp only [List.forall_mem_cons]
  exact ⟨canonical_ofMembers (by simp), hrange, by simp⟩

namespace Handler

theorem canonical_capabilities (depth : Nat) : Canonical (depth + 4) capabilities := by
  refine canonical_ofMembers ?_
  simp [canonical_ofMembers]

theorem canonical_signaturePlaceholder (depth : Nat) :
    Canonical (depth + 4) signaturePlaceholder := by
  refine canonical_ofMembers ?_
  simp [canonical_ofMembers]

theorem canonical_noCompletions (depth : Nat) : Canonical (depth + 2) noCompletions := by
  simp [noCompletions, canonical_ofMembers]

/-! ### Methods -/

/-- A value that survives the wire, nothing, or an error without data. -/
def Sendable : Answer → Prop
  | .error e => e.data = none
  | .ok none => True
  | .ok (some v) => Canonical (Json.maxDepth - 1) v

theorem decode_data {β : Type} {decoder : Json.Decoder β} {params : Json} {e : ResponseError}
    (h : decode decoder params = .error e) : e.data = none := by
  unfold decode at h
  cases hdecoded : decoder params with
  | error cause =>
    rw [hdecoded] at h
    cases h
    rfl
  | ok value =>
    rw [hdecoded] at h
    cases h

section Language

variable {α : Type} [Script.Syntactic α] (language : Language α)

theorem nodeAt_data {store : Store} {target : Params.Target} {e : ResponseError}
    (h : nodeAt language store target = .error e) : e.data = none := by
  unfold nodeAt at h
  split at h
  · cases h
    rfl
  split at h
  · cases h
    rfl
  split at h
  · cases h
    rfl
  split at h
  · cases h
    rfl
  · cases h

theorem hover_sendable (h : Handler) (params : Json) :
    Sendable (h.hover language params).value := by
  unfold hover
  split
  · next e hdecoded => exact decode_data hdecoded
  split
  · next e hnode => exact nodeAt_data language hnode
  · exact Hover.canonical_toJson _ 123

theorem didOpen_sendable (h : Handler) (params : Json) :
    Sendable (h.didOpen params).value.2 := by
  unfold didOpen
  split
  · next e hdecoded => exact decode_data hdecoded
  · exact Json.canonical_null _

theorem didChange_sendable (h : Handler) (params : Json) :
    Sendable (h.didChange params).value.2 := by
  unfold didChange
  split
  · next e hdecoded => exact decode_data hdecoded
  · next p _ =>
    simp only [Logged.value_bind, Logged.value_pure]
    cases (h.store.applyChanges p.uri p.version p.changes).value.2 with
    | error e => exact rfl
    | ok _ => trivial

theorem didClose_sendable (h : Handler) (params : Json) :
    Sendable (h.didClose params).value.2 := by
  unfold didClose
  split
  · next e hdecoded => exact decode_data hdecoded
  · trivial

theorem exit_value (h : Handler) :
    h.exit.value = ({ h with signal := (h.signal.trigger h.shutdownRequested).1 }, .ok none) := by
  obtain ⟨store, shutdownRequested, signal⟩ := h
  cases shutdownRequested <;> cases signal <;> rfl

theorem fixed_sendable {β : Type} (decoder : Json.Decoder β) (params value : Json)
    (hvalue : Canonical (Json.maxDepth - 1) value) :
    Sendable ((decode decoder params).map fun _ => some value) := by
  cases hdecoded : decode decoder params with
  | error e => exact decode_data hdecoded
  | ok _ => exact hvalue

theorem handle_sendable (h : Handler) (method : String) (params : Json) :
    Sendable (h.handle language method params).value.2 := by
  unfold handle
  simp only [Logged.value_bind]
  split
  · exact canonical_capabilities 122
  · trivial
  · trivial
  · exact didOpen_sendable h params
  · exact didChange_sendable h params
  · exact didClose_sendable h params
  · exact hover_sendable language h params
  · exact fixed_sendable _ params _ (canonical_signaturePlaceholder 122)
  · exact fixed_sendable _ params _ (canonical_noCompletions 124)
  · exact Json.canonical_null _
  · rw [exit_value]
    trivial
  · rfl

variable {language}

theorem sendable_of_handle {h next : Handler} {method : String} {params : Json} {answer : Answer}
    (hanswer : (h.handle language method params).value = (next, answer)) : Sendable answer := by
  have hsendable := handle_sendable language h method params
  rwa [hanswer] at hsendable

end Language

end Handler

end LanguageServer
