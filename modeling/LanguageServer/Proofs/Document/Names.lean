import LanguageServer.Document.Store
import Mathlib.Data.List.Nodup
import Mathlib.Data.List.Perm.Basic
import Mathlib.Tactic.SplitIfs

/-! # Documents by name

A store gives every name at most one document. Putting a document under a name is seen under that
name only, and what is stored is all that names can tell: two stores that give the same document for
every name hold the same entries, in whatever order.

* `get?_insert`: what is seen after putting a document under a name;
* `Distinct`: every name stands once, kept by `insert`;
* `Distinct.perm`: stores that agree on every name. -/

namespace LanguageServer.Store

theorem lookup_entry (name key : String) (d : Document) (rest : List (String × Document)) :
    ((key, d) :: rest).lookup name = if name = key then some d else rest.lookup name := by
  rw [List.lookup_cons]
  by_cases hname : name = key
  · simp [hname]
  · rw [beq_false_of_ne hname, if_neg hname]

theorem lookup_put (uri name : String) (d : Document) (entries : List (String × Document)) :
    (put uri d entries).lookup name = if name = uri then some d else entries.lookup name := by
  induction entries with
  | nil => exact lookup_entry name uri d []
  | cons entry rest ih =>
    obtain ⟨key, e⟩ := entry
    rw [put, lookup_entry]
    by_cases hkey : key = uri
    · rw [if_pos hkey, lookup_entry, hkey]
      split_ifs <;> rfl
    · rw [if_neg hkey, lookup_entry, ih]
      by_cases hname : name = uri
      · rw [hname, if_neg (Ne.symm hkey), if_pos rfl, if_pos rfl]
      · rw [if_neg hname, if_neg hname]

/-- **A document put under a name is seen under that name only.** -/
theorem get?_insert (s : Store) (uri name : String) (d : Document) :
    (s.insert uri d).get? name = if name = uri then some d else s.get? name :=
  lookup_put uri name d s.entries

theorem get?_eq_ite (s : Store) {uri : String} {d : Option Document} (h : s.get? uri = d)
    (name : String) : s.get? name = if name = uri then d else s.get? name := by
  split_ifs with hname
  · rw [hname, h]
  · rfl

/-! ### Every name once -/

/-- Every name stands once. -/
def Distinct (s : Store) : Prop := (s.entries.map Prod.fst).Nodup

theorem distinct_empty : empty.Distinct := List.nodup_nil

theorem mem_names_put {uri name : String} {d : Document} {entries : List (String × Document)}
    (h : name ∈ (put uri d entries).map Prod.fst) : name = uri ∨ name ∈ entries.map Prod.fst := by
  induction entries with
  | nil => exact Or.inl (List.mem_singleton.mp h)
  | cons entry rest ih =>
    rw [put] at h
    split at h
    · next hentry =>
      rcases List.mem_cons.mp h with hname | hrest
      · exact Or.inl hname
      · exact Or.inr (List.mem_cons_of_mem _ hrest)
    · rcases List.mem_cons.mp h with hname | hrest
      · exact Or.inr (by rw [hname]; exact List.mem_cons_self)
      · exact (ih hrest).imp_right (List.mem_cons_of_mem _)

theorem nodup_names_put {entries : List (String × Document)}
    (h : (entries.map Prod.fst).Nodup) (uri : String) (d : Document) :
    ((put uri d entries).map Prod.fst).Nodup := by
  induction entries with
  | nil => exact List.nodup_singleton uri
  | cons entry rest ih =>
    obtain ⟨hfirst, hrest⟩ := List.nodup_cons.mp h
    rw [put]
    split
    · next hentry =>
      rw [hentry] at hfirst
      exact List.nodup_cons.mpr ⟨hfirst, hrest⟩
    · next hentry =>
      refine List.nodup_cons.mpr ⟨fun hmem => ?_, ih hrest⟩
      rcases mem_names_put hmem with hname | hname
      · exact hentry hname
      · exact hfirst hname

theorem Distinct.insert {s : Store} (h : s.Distinct) (uri : String) (d : Document) :
    (s.insert uri d).Distinct :=
  nodup_names_put h uri d

theorem Distinct.mem_entries {s : Store} (h : s.Distinct) {name : String} {d : Document} :
    (name, d) ∈ s.entries ↔ s.get? name = some d := by
  obtain ⟨entries⟩ := s
  unfold Distinct at h
  unfold get?
  induction entries with
  | nil => simp
  | cons entry rest ih =>
    obtain ⟨key, e⟩ := entry
    obtain ⟨hfirst, hrest⟩ := List.nodup_cons.mp h
    rw [List.mem_cons, ih hrest, lookup_entry]
    by_cases hname : name = key
    · subst hname
      have hnone : rest.lookup name ≠ some d := by
        intro hlookup
        exact hfirst (List.mem_map.mpr ⟨(name, d), (ih hrest).mpr hlookup, rfl⟩)
      simp [hnone, eq_comm]
    · simp [hname]

/-- **Stores that give the same document for every name** hold the same entries. -/
theorem Distinct.perm {s s' : Store} (h : s.Distinct) (h' : s'.Distinct)
    (hsame : ∀ name, s.get? name = s'.get? name) : s.entries.Perm s'.entries := by
  refine (List.perm_ext_iff_of_nodup (List.Nodup.of_map _ h) (List.Nodup.of_map _ h')).mpr ?_
  rintro ⟨name, d⟩
  rw [h.mem_entries, h'.mem_entries, hsame name]

end LanguageServer.Store
