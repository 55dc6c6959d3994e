import LanguageServer.Json.Decode

/-! # What a record is decoded from

A record comes from an object if every field that may not be absent is a member that fits, and from
an array if its elements fit the fields in order. Both are said one field at a time, so that the
fields of a given layout are peeled off from the last one.

* `Layout.ofMembers_field_iff`: one field of an object;
* `Layout.tryElements_field_iff`, `Layout.ofElements_eq_ok_iff`: one field of an array, and its end;
* `Json.firstItems`, `Decoder.list_firstItems`: an array with the first of its elements only. -/

namespace LanguageServer.Json

/-! ### Fields -/

namespace Layout

variable {α β : Type} {before : Layout (β → α)} {layout : Layout α} {name : String}
  {decode : Decoder β} {a : α}

theorem ofMembers_eq_ok_iff {members : List (String × Json)} :
    layout.ofMembers members = .ok a ↔ layout.tryMembers members = ⟨none, none, some a⟩ := by
  unfold ofMembers
  constructor
  · intro h
    split at h
    · cases h
    · cases h
    · next b htry =>
      cases h
      exact htry
    · cases h
  · intro h
    rw [h]

theorem ofMembers_build_iff {value : α} {members : List (String × Json)} :
    (build value).ofMembers members = .ok a ↔ value = a := by
  rw [ofMembers_eq_ok_iff, tryMembers]
  simp

theorem ofMembers_field_iff {members : List (String × Json)} :
    (before.field name decode none).ofMembers members = .ok a ↔
      ∃ f v b, before.ofMembers members = .ok f ∧ members.lookup name = some v ∧
        decode v = .ok b ∧ f b = a := by
  simp only [ofMembers_eq_ok_iff, tryMembers]
  constructor
  · intro h
    split at h
    · next v hv =>
      split at h
      · next b hb =>
        obtain ⟨hbad, hmissing, hvalue⟩ := Attempt.mk.inj h
        obtain ⟨f, hf, hfb⟩ := Option.map_eq_some_iff.mp hvalue
        refine ⟨f, v, b, ?_, hv, hb, hfb⟩
        rw [← hbad, ← hmissing, ← hf]
      · simp at h
    · simp at h
  · rintro ⟨f, v, b, hbefore, hv, hb, rfl⟩
    simp [hbefore, hv, hb]

theorem ofElements_eq_ok_iff {surplus : Surplus} {vs : List Json} :
    layout.ofElements name surplus vs = .ok a ↔
      layout.tryElements ("struct " ++ name ++ " with " ++ elementCount layout.size) vs =
        .ok (a, []) := by
  unfold ofElements
  constructor
  · intro h
    split at h
    · cases h
    · next htry =>
      cases h
      exact htry
    · cases h
  · intro h
    rw [h]

theorem tryElements_field_iff {expected : String} {absent : Option β} {vs rest : List Json} :
    (before.field name decode absent).tryElements expected vs = .ok (a, rest) ↔
      ∃ f v b, before.tryElements expected vs = .ok (f, v :: rest) ∧ decode v = .ok b ∧
        f b = a := by
  rw [tryElements]
  constructor
  · intro h
    split at h
    · cases h
    · cases h
    · next f v after hbefore =>
      cases hb : decode v with
      | error e =>
        rw [hb] at h
        cases h
      | ok b =>
        rw [hb] at h
        cases h
        exact ⟨f, v, b, hbefore, hb, rfl⟩
  · rintro ⟨f, v, b, hbefore, hb, rfl⟩
    rw [hbefore]
    simp only [hb]
    rfl

end Layout

/-! ### Members and elements -/

theorem lookup_map_values (f : String → Json → Json) (members : List (String × Json))
    (key : String) :
    (members.map fun m => (m.1, f m.1 m.2)).lookup key = (members.lookup key).map (f key) := by
  induction members with
  | nil => rfl
  | cons m members ih =>
    obtain ⟨k, v⟩ := m
    rw [List.map_cons, List.lookup_cons, List.lookup_cons, ih]
    cases hkey : key == k with
    | false => rfl
    | true => rw [beq_iff_eq.mp hkey]; rfl

/-- The first elements of an array. -/
def firstItems (k : Nat) : Json → Json
  | array vs => array (vs.take k)
  | v => v

theorem mapM_take {α : Type} {decode : Decoder α} {vs : List Json} {as : List α}
    (h : vs.mapM decode = .ok as) (k : Nat) : (vs.take k).mapM decode = .ok (as.take k) := by
  induction vs generalizing as k with
  | nil =>
    rw [List.mapM_nil] at h
    cases h
    rw [List.take_nil, List.take_nil, List.mapM_nil]
    rfl
  | cons v vs ih =>
    rw [List.mapM_cons] at h
    cases hv : decode v with
    | error e => rw [hv] at h; cases h
    | ok b =>
      rw [hv] at h
      cases hvs : vs.mapM decode with
      | error e => rw [hvs] at h; cases h
      | ok bs =>
        rw [hvs] at h
        cases h
        cases k with
        | zero => rfl
        | succ k =>
          rw [List.take_succ_cons, List.take_succ_cons, List.mapM_cons, hv, ih hvs k]
          rfl

/-- **The first elements of an array decode to the first of what all decode to.** -/
theorem Decoder.list_firstItems {α : Type} {decode : Decoder α} {v : Json} {as : List α}
    (h : Decoder.list decode v = .ok as) (k : Nat) :
    Decoder.list decode (firstItems k v) = .ok (as.take k) := by
  cases v with
  | array vs => exact mapM_take h k
  | _ => cases h

end LanguageServer.Json
