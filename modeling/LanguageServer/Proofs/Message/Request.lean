import LanguageServer.Message.Request
import LanguageServer.Proofs.Json.Printable
import LanguageServer.Proofs.Json.Written
import LanguageServer.Proofs.Message.Envelope

/-! # Requests are read back

A request is printed without its parameters if they are null, and without its identifier if it has
none, which is what a reader takes the absent members for. So a request is read back as it was, as
long as its parameters survive printing; and the parameters of a request that was read do, floating
point apart.

* `RequestId.reads_toJson`, `RequestId.reads_optional`: identifiers;
* `Request.gathers_members`, `Request.reads_members`: the members, up to the draft they give;
* `Request.params_printable`: the parameters of a request that is read. -/

namespace LanguageServer

open Json.Record (Keeps)
open Json (Canonical Feeds Floatless Gathers Present Printable ReadsAs Sound)
open Text

/-! ### Identifiers -/

namespace RequestId

theorem canonical_toJson (id : RequestId) (depth : Nat) : Canonical depth id.toJson := by
  cases id with
  | number n =>
    have hlow := n.le_toInt
    have hhigh := n.toInt_lt
    refine (Json.canonical_integer depth _).mpr ?_
    omega
  | string s => exact Json.canonical_string depth s

theorem present_toJson (id : RequestId) : Present id.toJson :=
  (id.canonical_toJson 0).present (by cases id <;> exact nofun)

theorem reads_toJson (depth : Nat) (id : RequestId) : ReadsAs (read depth) id.toJson id := by
  intro rest hrest
  obtain ⟨_, hread⟩ := (id.canonical_toJson depth).readable.readsAs rest hrest
  rw [read, hread]
  simp only [ofJson?_toJson]
  exact ⟨_, rfl⟩

theorem reads_optional (depth : Nat) (id : Option RequestId) :
    ReadsAs (Json.nullable (read depth)) ((id.map toJson).getD .null) id := by
  cases id with
  | none => exact Json.nullable_null _
  | some id => exact Json.nullable_present id.present_toJson (id.reads_toJson depth)

end RequestId

/-! ### Requests -/

namespace Request

theorem isNull_iff {v : Json} : isNull v = true ↔ v = .null := by
  cases v <;> simp [isNull]

/-- What has been read of a request when all its members have. -/
def drafted (r : Request) : Draft :=
  ⟨some r.version, some r.method, if isNull r.params then none else some r.params, r.id.map some⟩

theorem finish_drafted (depth : Nat) (r : Request) :
    (record depth).finish r.drafted = .ok r := by
  obtain ⟨version, method, params, id⟩ := r
  have hparams : (if isNull params then none else some params).getD .null = params := by
    split
    · next hnull => exact (isNull_iff.mp hnull).symm
    · rfl
  cases id <;> simp [record, drafted, hparams]

theorem gathers_members (depth : Nat) {r : Request} (h : Canonical depth r.params) :
    Gathers (Feeds (record depth).member) (record depth).start r.members r.drafted := by
  obtain ⟨version, method, params, id⟩ := r
  let d : Draft := ⟨some version, some method, none, none⟩
  let d' : Draft := { d with params := if isNull params then none else some params }
  have hfirst : Gathers (Feeds (record depth).member) (record depth).start
      [("jsonrpc", .string version), ("method", .string method)] d :=
    .cons (Json.Record.feeds rfl rfl ((Json.text_string version).map _))
      (.cons (Json.Record.feeds rfl rfl ((Json.text_string method).map _)) .nil)
  refine (hfirst.append (show Gathers _ d _ d' from ?_)).append ?_
  · show Gathers _ d (if isNull params then [] else [("params", params)]) d'
    unfold d'
    split
    · exact .nil
    · exact .cons (Json.Record.feeds rfl rfl (h.readable.readsAs.map _)) .nil
  · cases id with
    | none => exact .nil
    | some id =>
      have hid := RequestId.reads_optional depth (some id)
      exact .cons (Json.Record.feeds rfl rfl (hid.map _)) .nil

theorem reads_members (depth : Nat) {r : Request} (h : Canonical depth r.params) :
    ReadsAs (record depth).read (.object r.members) r :=
  Json.Record.reads_object (gathers_members depth h) (finish_drafted depth r)

theorem decode_members {r : Request} (h : Canonical (Json.maxDepth - 1) r.params) :
    decode (Utf8.ofString r.encode) = .ok r := (reads_members _ h).decodeWith

/-! ### Parameters -/

/-- The parameters that have been read are canonical, floating point apart. -/
def ParamsPrintable (depth : Nat) (d : Draft) : Prop := ∀ v, d.params = some v → Printable depth v

theorem fields_keep (depth : Nat) : ∀ field ∈ (record depth).fields, ∀ d,
    Sound (Keeps (ParamsPrintable depth) field.name d) (field.read d) := by
  simp only [record, List.forall_mem_cons]
  refine ⟨fun d => ?_, fun d => ?_, fun d => ?_, fun d => ?_, List.forall_mem_nil _⟩
  · exact Json.text_sound.map fun _ _ _ h => h
  · exact Json.text_sound.map fun _ _ _ h => h
  · refine ((Json.value_sound depth).and (Json.value_printable depth)).map fun _ v hv _ w hw => ?_
    cases hw
    exact hv.2
  · exact (Json.nullable_sound (RequestId.read_sound depth)).map fun _ _ _ h => h

/-- **The parameters of a request that is read are canonical,** floating point apart. -/
theorem params_printable {body : List UInt8} {r : Request} (h : decode body = .ok r) :
    Printable (Json.maxDepth - 1) r.params := by
  obtain ⟨_, -, d, hd, hfinish⟩ := (Json.Record.read_keeps nofun (fields_keep _)).decodeWith h
  simp only [record] at hfinish
  split at hfinish
  · cases hfinish
  · cases hfinish
    cases hparams : d.params with
    | none => exact fun _ => Json.canonical_null _
    | some v => exact hd v hparams

/-! ### Round trips -/

theorem canonical_of_mem_members {depth : Nat} {r : Request} (h : Canonical depth r.params)
    {m : String × Json} (hm : m ∈ r.members) : Canonical depth m.2 := by
  rcases List.mem_append.mp hm with hm | hm
  · rcases List.mem_append.mp hm with hm | hm
    · simp only [List.mem_cons, List.not_mem_nil, or_false] at hm
      rcases hm with rfl | rfl <;> exact Json.canonical_string depth _
    · split at hm
      · cases hm
      · cases List.mem_singleton.mp hm
        exact h
  · split at hm
    · cases hm
    · cases List.mem_singleton.mp hm
      exact RequestId.canonical_toJson _ depth

/-- The members that are left out are null parameters and an absent identifier. -/
theorem get?_members (r : Request) :
    ((Json.ofMembers r.members).get? "params" = none ↔ r.params = .null) ∧
      ((Json.ofMembers r.members).get? "id" = none ↔ r.id = none) := by
  obtain ⟨version, method, params, id⟩ := r
  simp only [Json.get?_ofMembers_eq_none, members, ← isNull_iff]
  cases id <;> cases isNull params <;> simp

/-- **Requests are read back** from their text if their parameters are canonical, and null parameters
and an absent identifier are left out of it. So a request that was read, from whatever body, is read
back from its text, and its text is printed again, if no floating-point number is in its
parameters. -/
theorem decode_printed :
    (∀ r : Request, Canonical (Json.maxDepth - 1) r.params →
      decode (Utf8.ofString r.encode) = .ok r ∧
        ∃ v, Json.decode (Utf8.ofString r.encode) = .ok v ∧
          (v.get? "params" = none ↔ r.params = .null) ∧ (v.get? "id" = none ↔ r.id = none)) ∧
    ∀ body r, decode body = .ok r → Floatless r.params →
      decode (Utf8.ofString r.encode) = .ok r ∧
        (decode (Utf8.ofString r.encode)).map encode = .ok r.encode := by
  refine ⟨fun r h => ⟨decode_members h, _, ?_, get?_members r⟩, fun body r hbody hfloatless => ?_⟩
  · exact Json.decode_object fun m hm => canonical_of_mem_members h hm
  · have hread := decode_members (params_printable hbody hfloatless)
    exact ⟨hread, congrArg (Except.map encode) hread⟩

/-- An identifier that is as small as it can be, a number that is as great as it can be and a string
with all kinds of characters; and a body with its members in another order and a null identifier. -/
theorem decode_printed_extreme :
    let text := Json.string "\"\u0001é\\𝄞"
    let r : Request := ⟨"", "m", .object [("a", .integer 0xFFFFFFFFFFFFFFFF), ("b", text)],
      some (.number Int64.minValue)⟩
    let r' : Request := ⟨"2.0", "m", .array [.integer (-1), .null], none⟩
    let body := Utf8.ofString
      (Json.object [("id", .null), ("params", r'.params), ("method", .string "m")]).print
    Canonical (Json.maxDepth - 1) r.params ∧ decode (Utf8.ofString r.encode) = .ok r ∧
      decode body = .ok r' ∧ Floatless r'.params ∧ decode (Utf8.ofString r'.encode) = .ok r' := by
  intro text r r' body
  have hcanonical : Canonical (Json.maxDepth - 1) r.params := by
    refine ⟨List.pairwise_pair.mpr (show Json.keyBefore "a" "b" = true by decide), ?_⟩
    refine List.forall_mem_cons.mpr ⟨(Json.canonical_integer _ _).mpr (by decide), ?_⟩
    exact List.forall_mem_cons.mpr ⟨Json.canonical_string _ _, nofun⟩
  have hparams : Canonical (Json.maxDepth - 1) r'.params :=
    List.forall_mem_cons.mpr ⟨(Json.canonical_integer _ _).mpr (by decide),
      List.forall_mem_cons.mpr ⟨Json.canonical_null _, nofun⟩⟩
  have hbody : decode body = .ok r' :=
    (Json.Record.reads_object (.cons (Json.Record.feeds rfl rfl ((Json.nullable_null _).map _))
      (.cons (Json.Record.feeds rfl rfl (hparams.readable.readsAs.map _))
        (.cons (Json.Record.feeds rfl rfl ((Json.text_string "m").map _)) .nil))) rfl).decodeWith
  have hfloatless : Floatless r'.params :=
    .array (List.forall_mem_cons.mpr ⟨.integer (-1), List.forall_mem_cons.mpr ⟨.null, nofun⟩⟩)
  exact ⟨hcanonical, (decode_printed.1 r hcanonical).1, hbody, hfloatless,
    (decode_printed.2 body r' hbody hfloatless).1⟩

end Request

end LanguageServer
