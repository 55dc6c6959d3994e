import LanguageServer.Handler
import LanguageServer.Proofs.Json.Decode

/-! # The same call with fewer changes

A batch of changes that fails leaves what a shorter one leaves that succeeds. That one can be asked
for as well.

* `Params.firstChanges`, `Params.changed_firstChanges`: the parameters with the first changes only,
  as they are sent. -/

namespace LanguageServer

namespace Params

open Json (firstItems lookup_map_values)
open Json.Decoder (list_firstItems)
open Json.Layout (ofMembers_field_iff ofMembers_build_iff ofElements_eq_ok_iff
  tryElements_field_iff)

/-- The parameters of changing a document, with the first changes only. -/
def firstChanges (k : Nat) : Json → Json
  | .object members =>
    .object (members.map fun m => (m.1, if m.1 = "contentChanges" then firstItems k m.2 else m.2))
  | .array [document, changes] => .array [document, firstItems k changes]
  | v => v

/-- **With the first changes only, all else is decoded as before.** -/
theorem changed_firstChanges {params : Json} {p : Changed} (h : changed params = .ok p) (k : Nat) :
    changed (firstChanges k params) = .ok { p with changes := p.changes.take k } := by
  cases params with
  | object members =>
    obtain ⟨_, changes, cs, hdocument, hchanges, hcs, rfl⟩ := ofMembers_field_iff.mp h
    obtain ⟨_, document, d, hbuild, hmember, hd, rfl⟩ := ofMembers_field_iff.mp hdocument
    obtain rfl := ofMembers_build_iff.mp hbuild
    have hlookup := lookup_map_values
      (fun key v => if key = "contentChanges" then firstItems k v else v) members
    have hmember' := hlookup "textDocument"
    have hchanges' := hlookup "contentChanges"
    rw [hmember] at hmember'
    rw [hchanges] at hchanges'
    exact ofMembers_field_iff.mpr ⟨_, _, _, ofMembers_field_iff.mpr
      ⟨_, _, _, ofMembers_build_iff.mpr rfl, hmember', hd, rfl⟩, hchanges', list_firstItems hcs k,
      rfl⟩
  | array vs =>
    rw [changed, Json.Layout.decoder] at h
    have helements := ofElements_eq_ok_iff.mp h
    obtain ⟨_, changes, cs, hdocument, hcs, rfl⟩ := tryElements_field_iff.mp helements
    obtain ⟨_, document, d, hbuild, hd, rfl⟩ := tryElements_field_iff.mp hdocument
    cases hbuild
    rw [firstChanges, changed, Json.Layout.decoder]
    exact ofElements_eq_ok_iff.mpr (tryElements_field_iff.mpr
      ⟨_, _, _, tryElements_field_iff.mpr ⟨_, _, _, rfl, hd, rfl⟩, list_firstItems hcs k, rfl⟩)
  | _ => cases h

end Params

end LanguageServer
