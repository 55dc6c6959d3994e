import LanguageServer.Message.Response
import LanguageServer.Proofs.Message.Request

/-! # Replies are read back

The identifier of a reply is always written, null if it is absent; result, error and data are written
if they are there. A reader takes null for absent everywhere, so a result or data that is null is
lost, and nothing else.

* `nullable_value`: a value that is taken for absent if it is null;
* `ResponseError.reads_members`, `Response.reads_members`: errors and replies, up to what they give. -/

namespace LanguageServer

open Json (Canonical Feeds Gathers ReadsAs)
open Text

/-- What is read of a value that may be absent. -/
def withoutNull (v : Option Json) : Option Json := v.filter fun v => !Request.isNull v

theorem nullable_value {depth : Nat} {v : Json} (h : Canonical depth v) :
    ReadsAs (Json.nullable (Json.value depth)) v (withoutNull (some v)) := by
  by_cases hnull : v = .null
  · subst hnull
    exact Json.nullable_null _
  · have hkept : withoutNull (some v) = some v := by
      simpa [withoutNull, ← Request.isNull_iff] using hnull
    rw [hkept]
    exact Json.nullable_present (h.present hnull) h.readable.readsAs

/-! ### Errors -/

namespace ResponseError

/-- What is read of an error. -/
def received (e : ResponseError) : ResponseError := { e with data := withoutNull e.data }

theorem gathers_members (depth : Nat) {e : ResponseError} (h : ∀ v ∈ e.data, Canonical depth v) :
    Gathers (Feeds (record depth).member) (record depth).start e.members
      ⟨some e.code, some e.message, e.data.map fun v => withoutNull (some v)⟩ := by
  obtain ⟨code, message, data⟩ := e
  have hfirst : Gathers (Feeds (record depth).member) (record depth).start
      [("code", .integer code.toInt), ("message", .string message)]
      ⟨some code, some message, none⟩ :=
    .cons (Json.Record.feeds rfl rfl ((Json.int32_integer code).map _))
      (.cons (Json.Record.feeds rfl rfl ((Json.text_string message).map _)) .nil)
  refine hfirst.append ?_
  cases data with
  | none => exact .nil
  | some v => exact .cons (Json.Record.feeds rfl rfl ((nullable_value (h v rfl)).map _)) .nil

theorem reads_toJson (depth : Nat) {e : ResponseError} (h : ∀ v ∈ e.data, Canonical depth v) :
    ReadsAs (record depth).read e.toJson e.received := by
  refine Json.Record.reads_object (gathers_members depth h) ?_
  obtain ⟨code, message, data⟩ := e
  cases data <;> rfl

end ResponseError

/-! ### Replies -/

namespace Response

/-- What is read of a reply. -/
def received (r : Response) : Response :=
  { r with result := withoutNull r.result, error := r.error.map ResponseError.received }

theorem gathers_members (depth : Nat) {r : Response}
    (hresult : ∀ v ∈ r.result, Canonical (depth + 1) v)
    (herror : ∀ e ∈ r.error, ∀ v ∈ e.data, Canonical depth v) :
    Gathers (Feeds (record depth).member) (record depth).start r.members
      ⟨some r.version, some r.id, r.result.map fun v => withoutNull (some v),
        r.error.map fun e => some e.received⟩ := by
  obtain ⟨version, id, result, error⟩ := r
  let d : Draft := ⟨some version, some id, none, none⟩
  let d' : Draft := { d with result := result.map fun v => withoutNull (some v) }
  have hfirst : Gathers (Feeds (record depth).member) (record depth).start
      [("jsonrpc", .string version), ("id", (id.map RequestId.toJson).getD .null)] d :=
    .cons (Json.Record.feeds rfl rfl ((Json.text_string version).map _))
      (.cons (Json.Record.feeds rfl rfl ((RequestId.reads_optional (depth + 1) id).map _)) .nil)
  refine (hfirst.append (show Gathers _ d _ d' from ?_)).append ?_
  · cases result with
    | none => exact .nil
    | some v => exact .cons (Json.Record.feeds rfl rfl ((nullable_value (hresult v rfl)).map _)) .nil
  · cases error with
    | none => exact .nil
    | some e =>
      have he := Json.nullable_present (Json.present_object e.members)
        (e.reads_toJson depth (herror e rfl))
      exact .cons (Json.Record.feeds rfl rfl (he.map _)) .nil

theorem reads_members (depth : Nat) {r : Response}
    (hresult : ∀ v ∈ r.result, Canonical (depth + 1) v)
    (herror : ∀ e ∈ r.error, ∀ v ∈ e.data, Canonical depth v) :
    ReadsAs (record depth).read (.object r.members) r.received := by
  refine Json.Record.reads_object (gathers_members depth hresult herror) ?_
  obtain ⟨version, id, result, error⟩ := r
  cases result <;> cases error <;> rfl

theorem decode_members {r : Response} (hresult : ∀ v ∈ r.result, Canonical (Json.maxDepth - 1) v)
    (herror : ∀ e ∈ r.error, ∀ v ∈ e.data, Canonical (Json.maxDepth - 2) v) :
    decode (Utf8.ofString r.encode) = .ok r.received := (reads_members _ hresult herror).decodeWith

/-- **Replies are read back** from their text, with the version, the identifier, the result, the code,
the message and the data that they had, except that a result or data which is null is absent. -/
theorem decode_built :
    (∀ id v, Canonical (Json.maxDepth - 1) v →
      decode (Utf8.ofString (success id v).encode) =
        .ok { success id v with result := withoutNull (some v) }) ∧
    (∀ id (e : ResponseError), (∀ v ∈ e.data, Canonical (Json.maxDepth - 2) v) →
      decode (Utf8.ofString (failure id e).encode) =
        .ok (failure id { e with data := withoutNull e.data })) ∧
    ∀ id reason,
      decode (Utf8.ofString (parseError id reason).encode) = .ok (parseError id reason) := by
  refine ⟨fun id v hv => ?_, fun id e he => ?_, fun id reason => ?_⟩
  · refine decode_members (fun w hw => ?_) nofun
    cases hw
    exact hv
  · refine decode_members nofun fun e' he' => ?_
    cases he'
    exact he
  · refine decode_members nofun fun e he => ?_
    cases he
    exact nofun

/-- Null inside a result stays; null that is all of the result or of the data does not. -/
theorem decode_built_null :
    let inside := Json.array [.null, .integer (-0x8000000000000000)]
    let e : ResponseError := ⟨Int32.minValue, "\n", some .null⟩
    Canonical (Json.maxDepth - 1) inside ∧ Canonical (Json.maxDepth - 1) .null ∧
      (∀ v ∈ e.data, Canonical (Json.maxDepth - 2) v) ∧
      decode (Utf8.ofString (success none inside).encode) = .ok (success none inside) ∧
      decode (Utf8.ofString (success (some (.string "")) .null).encode) =
        .ok ⟨"2.0", some (.string ""), none, none⟩ ∧
      decode (Utf8.ofString (failure (some (.number 0)) e).encode) =
        .ok (failure (some (.number 0)) ⟨Int32.minValue, "\n", none⟩) := by
  intro inside e
  have hinside : Canonical (Json.maxDepth - 1) inside :=
    List.forall_mem_cons.mpr ⟨Json.canonical_null _,
      List.forall_mem_cons.mpr ⟨(Json.canonical_integer _ _).mpr (by decide), nofun⟩⟩
  have hnull : Canonical (Json.maxDepth - 1) .null := Json.canonical_null _
  have hdata : ∀ v ∈ e.data, Canonical (Json.maxDepth - 2) v := by
    rintro _ ⟨⟩
    exact Json.canonical_null _
  exact ⟨hinside, hnull, hdata, decode_built.1 none inside hinside,
    decode_built.1 (some (.string "")) .null hnull, decode_built.2.1 (some (.number 0)) e hdata⟩

end Response

end LanguageServer
