import LanguageServer.Message.Request
import LanguageServer.Proofs.Json.Recorded

/-! # What is decoded as a request

A body that is decoded as a request is a JSON text, an object or an array, whose parts are those of
an envelope: the method is there and is a string, and the version, the parameters and the identifier
are there at most once and are of their kinds.

* `RequestId.Shows`, `RequestId.read_sound`: identifiers;
* `Request.Says`: what members say of a request;
* `Request.Envelope`, `Request.decode_sound`: requests. -/

namespace LanguageServer

open Json (Tree Shows Sound Entry IsText OrNull Spells)
open Json.Record (Writes)

/-! ### Identifiers -/

namespace RequestId

/-- The identifier that a shape stands for. -/
inductive Shown : Tree → RequestId → Prop
  | number (n : Int64) : Shown (.integer n.toInt) (.number n)
  | string (s : String) : Shown (.string (some s)) (.string s)

theorem shown_of_ofJson? {tree : Tree} {v : Json} (hshows : Shows tree v) {id : RequestId}
    (hid : ofJson? v = some id) : Shown tree id := by
  cases hshows with
  | integer n =>
    simp only [ofJson?] at hid
    split at hid
    · next hrange =>
      cases hid
      have hsame : (Int64.ofInt n).toInt = n :=
        Int64.toInt_ofInt_of_le (by simpa using hrange.1) (by simpa using hrange.2)
      have hshown := Shown.number (Int64.ofInt n)
      rwa [hsame] at hshown
    · cases hid
  | string s =>
    cases hid
    exact .string s
  | null => cases hid
  | bool => cases hid
  | rounded => cases hid
  | decimal => cases hid
  | array => cases hid
  | object => cases hid

theorem read_sound (depth : Nat) : Sound Shown (read depth) := by
  intro bs t hread
  unfold read at hread
  split at hread
  · cases hread
  · next u hu =>
    split at hread
    · next id hid =>
      cases hread
      obtain ⟨tree, hvalue, hshows⟩ := Json.value_sound depth _ _ hu
      exact ⟨tree, hvalue, shown_of_ofJson? hshows hid⟩
    · cases hread

end RequestId

/-! ### Requests -/

namespace Request

/-- What members say of a request. -/
structure Says (ms : List (Option String × Tree)) (r : Request) : Prop where
  version : ∃ v, Entry IsText "jsonrpc" ms v ∧ r.version = v.getD protocolVersion
  method : Entry IsText "method" ms (some r.method)
  params : ∃ v, Entry Shows "params" ms v ∧ r.params = v.getD .null
  id : ∃ v, Entry (OrNull RequestId.Shown) "id" ms v ∧ r.id = v.getD none

/-- The names of the members, in the order of an array. -/
def memberNames : List String := ["jsonrpc", "method", "params", "id"]

/-- **The envelope of a request:** an object whose members say it, or an array of such values in
their order, the last of which may be missing. -/
inductive Envelope : Tree → Request → Prop
  | object {ms : List (Option String × Tree)} {r : Request} (hkeys : ∀ m ∈ ms, m.1.isSome = true)
    (h : Says ms r) : Envelope (.object ms) r
  | array {ts : List Tree} {r : Request} (hlength : ts.length ≤ memberNames.length)
    (h : Says ((memberNames.map some).zip ts) r) : Envelope (.array ts) r

/-- What a value does to the draft of a request. -/
structure Fills (name : String) (d : Draft) (tree : Tree) (next : Draft) : Prop where
  version : Writes "jsonrpc" Draft.version IsText name d tree next
  method : Writes "method" Draft.method IsText name d tree next
  params : Writes "params" Draft.params Shows name d tree next
  id : Writes "id" Draft.id (OrNull RequestId.Shown) name d tree next

variable {depth : Nat}

theorem fields_sound (depth : Nat) :
    ∀ field ∈ (record depth).fields, ∀ d, Sound (Fills field.name d) (field.read d) := by
  simp only [record, List.forall_mem_cons]
  refine ⟨fun d => ?_, fun d => ?_, fun d => ?_, fun d => ?_, nofun⟩
  · exact Json.text_sound.map fun tree s hs => ⟨⟨s, rfl, hs⟩, rfl, rfl, rfl⟩
  · exact Json.text_sound.map fun tree s hs => ⟨rfl, ⟨s, rfl, hs⟩, rfl, rfl⟩
  · exact (Json.value_sound depth).map fun tree v hv => ⟨rfl, rfl, ⟨v, rfl, hv⟩, rfl⟩
  · exact (Json.nullable_sound (RequestId.read_sound depth)).map fun tree i hi =>
      ⟨rfl, rfl, rfl, ⟨i, rfl, hi⟩⟩

theorem isSet_of_fills (depth : Nat) {field other : Json.Field Draft}
    (hother : other ∈ (record depth).fields) (hne : other.name ≠ field.name)
    {d next : Draft} {tree : Tree} (h : Fills field.name d tree next) :
    other.isSet next = other.isSet d := by
  obtain ⟨hversion, hmethod, hparams, hid⟩ := h
  unfold Writes at hversion hmethod hparams hid
  simp only [record, List.mem_cons, List.not_mem_nil, or_false] at hother
  rcases hother with rfl | rfl | rfl | rfl
  · rw [if_neg hne.symm] at hversion
    exact congrArg Option.isSome hversion
  · rw [if_neg hne.symm] at hmethod
    exact congrArg Option.isSome hmethod
  · rw [if_neg hne.symm] at hparams
    exact congrArg Option.isSome hparams
  · rw [if_neg hne.symm] at hid
    exact congrArg Option.isSome hid

theorem says_of_gathers {ms : List (Option String × Tree)} {d : Draft} {r : Request}
    (h : Json.Gathers ((record depth).Takes Fills) (record depth).start ms d)
    (hfinish : (record depth).finish d = .ok r) : Says ms r := by
  have hversion : Entry IsText "jsonrpc" ms d.version :=
    Json.Record.entry_of_gathers (by simp [record]) (by simp [record])
      (fun _ _ _ _ hfills => hfills.version) h rfl
  have hmethod : Entry IsText "method" ms d.method :=
    Json.Record.entry_of_gathers (by simp [record]) (by simp [record])
      (fun _ _ _ _ hfills => hfills.method) h rfl
  have hparams : Entry Shows "params" ms d.params :=
    Json.Record.entry_of_gathers (by simp [record]) (by simp [record])
      (fun _ _ _ _ hfills => hfills.params) h rfl
  have hid : Entry (OrNull RequestId.Shown) "id" ms d.id :=
    Json.Record.entry_of_gathers (by simp [record]) (by simp [record])
      (fun _ _ _ _ hfills => hfills.id) h rfl
  simp only [record] at hfinish
  split at hfinish
  · cases hfinish
  · next method heq =>
    cases hfinish
    rw [heq] at hmethod
    exact ⟨⟨_, hversion, rfl⟩, hmethod, ⟨_, hparams, rfl⟩, ⟨_, hid, rfl⟩⟩

theorem envelope_of_made {tree : Tree} {r : Request} (h : (record depth).Made Fills tree r) :
    Envelope tree r := by
  cases h with
  | object hmembers hfinish =>
    exact .object (Json.Record.isSome_of_gathers hmembers) (says_of_gathers hmembers hfinish)
  | array hitems hfinish =>
    refine .array hitems.length_le (says_of_gathers ?_ hfinish)
    refine hitems.gathers (fun field _ other hother hne _ _ _ => isSet_of_fills depth hother hne)
      (List.Subset.refl _) ?_ ?_
    · simp [record]
    · simp [record]

theorem decode_sound {body : List UInt8} {r : Request} (h : decode body = .ok r) :
    ∃ tree, Spells body tree ∧ Envelope tree r := by
  have hsound : Sound Envelope (record (Json.maxDepth - 1)).read := by
    intro bs t hread
    obtain ⟨tree, hvalue, hmade⟩ := Json.Record.read_sound (fields_sound _) _ _ hread
    exact ⟨tree, hvalue, envelope_of_made hmade⟩
  exact hsound.decodeWith h

end Request

end LanguageServer
