import LanguageServer.Json.Record
import LanguageServer.Proofs.Json.Denoted

/-! # Records are read by the grammar

A record is read from an object or from an array. What its fields take from the values there is a
parameter, `Fills`: what a value does to the draft when it stands in a field. An object then does to
the draft what its members do, one after the other, and an array what its items do in the order of
the fields.

* `text_sound`, `nullable_sound`: readers of fields;
* `valuesOf`, `Entry`: what the members of an object say of a name;
* `Record.Takes`, `Record.member_sound`: the members of an object;
* `Record.InOrder`, `Record.elements_sound`: the items of an array;
* `Record.read_sound`: records;
* `Record.read_keeps`: what holds of the draft after all fields;
* `Record.entry_of_gathers`: one field after all members;
* `Record.InOrder.gathers`: an array is taken for an object. -/

namespace LanguageServer.Json

/-! ### Readers of fields -/

theorem refuse_ne_ok {β : Type} (expected : String) (b : UInt8) (rest : List UInt8) (a : β) :
    refuse expected b rest ≠ .ok a := by
  intro h
  unfold refuse at h
  simp only at h
  split at h
  · cases h
  split at h
  · cases h
  split at h
  · cases h
  · cases h
  · cases h

/-- The shape is a string with the text. -/
def IsText (tree : Tree) (s : String) : Prop := tree = .string (some s)

theorem text_sound : Sound IsText text := by
  intro bs t hread
  unfold text at hread
  split at hread
  · cases hread
  · next b rest _ hspace _ =>
    split at hread
    · next hb =>
      obtain ⟨ps, hchars, htext⟩ := stringText_sound hread
      subst hb
      refine ⟨_, (Value.string hchars).of_skipSpace hspace, ?_⟩
      rw [htext]
      rfl
    · exact absurd hread (refuse_ne_ok _ _ _ t)

/-- The shape is null for nothing, and holds of what is there otherwise. -/
def OrNull {β : Type} (Holds : Tree → β → Prop) (tree : Tree) : Option β → Prop
  | none => tree = .null
  | some b => Holds tree b

theorem nullable_sound {β : Type} {Holds : Tree → β → Prop} {reader : Reader β}
    (hreader : Sound Holds reader) : Sound (OrNull Holds) (nullable reader) := by
  intro bs t hread
  unfold nullable at hread
  split at hread
  · cases hread
  · next b rest hshort hspace _ =>
    split at hread
    · next hb =>
      cases hliteral : literal (bytesOf "ull") rest (tail_le_length hshort) with
      | error e => rw [hliteral] at hread; cases hread
      | ok u =>
        rw [hliteral] at hread
        cases hread
        refine ⟨.null, Value.of_skipSpace ?_ hspace, rfl⟩
        rw [hb, literal_sound hliteral]
        exact .null
    · cases hinner : reader (b :: rest) with
      | error e => rw [hinner] at hread; cases hread
      | ok u =>
        rw [hinner] at hread
        cases hread
        obtain ⟨tree, hvalue, hholds⟩ := hreader _ _ hinner
        exact ⟨tree, hvalue.of_skipSpace hspace, hholds⟩

/-! ### Members -/

/-- The values of the members with the name. -/
def valuesOf (name : String) (ms : List (Option String × Tree)) : List Tree :=
  (ms.filter fun m => m.1 = some name).map (·.2)

/-- What members say of a name: nothing, or one of them has it and holds the value. -/
def Entry {β : Type} (Holds : Tree → β → Prop) (name : String) (ms : List (Option String × Tree)) :
    Option β → Prop
  | none => valuesOf name ms = []
  | some b => ∃ tree, valuesOf name ms = [tree] ∧ Holds tree b

/-! ### Records -/

namespace Record

variable {σ α : Type} (r : Record σ α) (Fills : String → σ → Tree → σ → Prop)

/-- What a member of an object does to the draft: it fills its field, which is not set yet, or it
belongs to none. -/
inductive Takes : σ → Option String × Tree → σ → Prop
  | known {d next : σ} {field : Field σ} {tree : Tree} (hfield : field ∈ r.fields)
    (hnew : field.isSet d = false) (hfills : Fills field.name d tree next) :
    Takes d (some field.name, tree) next
  | unknown {d : σ} {name : String} {tree : Tree} (hname : ∀ field ∈ r.fields, field.name ≠ name) :
    Takes d (some name, tree) d

/-- What the items of an array do to the draft: each fills the next field, and the fields left over
may be missing. -/
inductive InOrder : List (Field σ) → σ → List Tree → σ → Prop
  | done {left : List (Field σ)} {d : σ} (hleft : ∀ field ∈ left, field.optional = true) :
    InOrder left d [] d
  | next {field : Field σ} {left : List (Field σ)} {d middle last : σ} {tree : Tree}
    {ts : List Tree} (hfills : Fills field.name d tree middle) (hrest : InOrder left middle ts last) :
    InOrder (field :: left) d (tree :: ts) last

variable {r Fills}

theorem settle_eq_ok {β : Type} {close : List UInt8 → List UInt8} {result : Except Failure β} {b : β}
    (h : settle close result = .ok b) : result = .ok b := by
  unfold settle at h
  split at h
  · cases h
  · exact h

theorem member_sound (hfields : ∀ field ∈ r.fields, ∀ d, Sound (Fills field.name d) (field.read d))
    (d : σ) (bs : List UInt8) (t : Taken UInt8 σ bs.length) (hread : r.member d bs = .ok t) :
    ∃ m, (∀ start, Next (byte '"') start bs → Keyed Value m start t.rest) ∧
      r.Takes Fills d m t.value := by
  unfold member at hread
  split at hread
  · cases hread
  · next key hkey =>
    split at hread
    · next hnone =>
      split at hread
      · cases hread
      · next mark hmark =>
        cases hskip : skipValue mark.rest with
        | error e => rw [hskip] at hread; cases hread
        | ok u =>
          rw [hskip] at hread
          cases hread
          obtain ⟨tree, hvalue⟩ := skipValue_sound hskip
          refine ⟨(some key.value, tree), fun start => keyed_of_read hkey hmark hvalue,
            .unknown fun field hfield => ?_⟩
          simpa using List.find?_eq_none.mp hnone field hfield
    · next field hfound =>
      have hfield := List.mem_of_find?_eq_some hfound
      have hname : field.name = key.value := by simpa using List.find?_some hfound
      split at hread
      · cases hread
      · next hset =>
        split at hread
        · cases hread
        · next mark hmark =>
          cases hinner : field.read d mark.rest with
          | error e => rw [hinner] at hread; cases hread
          | ok u =>
            rw [hinner] at hread
            cases hread
            obtain ⟨tree, hvalue, hfills⟩ := hfields field hfield d _ _ hinner
            refine ⟨(some key.value, tree), fun start => keyed_of_read hkey hmark hvalue, ?_⟩
            rw [← hname]
            exact .known hfield (by simpa using hset) hfills

theorem endArray_eq_ok {d : σ} {bound : Nat} {bs : List UInt8} {h : bs.length ≤ bound}
    {t : Taken UInt8 σ bound} (hread : endArray d bs h = .ok t) :
    t.value = d ∧ skipSpace bs = byte ']' :: t.rest := by
  unfold endArray at hread
  split at hread
  · cases hread
  · next b rest _ hspace _ =>
    split at hread
    · next hcloser =>
      cases hread
      subst hcloser
      exact ⟨rfl, hspace⟩
    · split at hread
      · split at hread <;> cases hread
      · cases hread

theorem elements_of_end {left : List (Field σ)} {d : σ} {count bound : Nat} {rest : List UInt8}
    {h : (byte ']' :: rest).length ≤ bound} {t : Taken UInt8 σ bound}
    (hread : r.elements d count left (byte ']' :: rest) h = .ok t) :
    t.value = d ∧ t.rest = rest ∧ ∀ field ∈ left, field.optional = true := by
  have hfront : skipSpace (byte ']' :: rest) = byte ']' :: rest := rfl
  induction left generalizing count with
  | nil =>
    rw [elements] at hread
    obtain ⟨hvalue, hspace⟩ := endArray_eq_ok hread
    cases hfront.symm.trans hspace
    exact ⟨hvalue, rfl, nofun⟩
  | cons field left ih =>
    rw [elements] at hread
    split at hread
    · cases hread
    · next b after _ hspace _ =>
      cases hfront.symm.trans hspace
      rw [if_pos rfl] at hread
      split at hread
      · next hoptional =>
        obtain ⟨hvalue, hrest, hleft⟩ := ih hread
        exact ⟨hvalue, hrest, List.forall_mem_cons.mpr ⟨hoptional, hleft⟩⟩
      · cases hread

theorem no_elements {count : Nat} {bs rest : List UInt8} (h : Next (byte ']') bs rest) :
    if count = 0 then Listed Value (byte ']') [] bs rest
    else More Value (byte ']') [] bs rest := by
  split
  · exact .none h
  · exact .done h

/-- The items of an array. Where some are read already, every further one has a comma in front. -/
theorem elements_sound
    (hfields : ∀ field ∈ r.fields, ∀ d, Sound (Fills field.name d) (field.read d))
    {left : List (Field σ)} (hleft : left ⊆ r.fields) {d : σ} {count bound : Nat}
    {bs : List UInt8} {h : bs.length ≤ bound} {t : Taken UInt8 σ bound}
    (hread : r.elements d count left bs h = .ok t) :
    ∃ ts, InOrder Fills left d ts t.value ∧
      if count = 0 then Listed Value (byte ']') ts bs t.rest
      else More Value (byte ']') ts bs t.rest := by
  -- The fields are taken in order, so the induction is on those that are left.
  induction left generalizing d count bs with
  | nil =>
    rw [elements] at hread
    obtain ⟨rfl, hspace⟩ := endArray_eq_ok hread
    exact ⟨[], .done nofun, no_elements (next_of_skipSpace hspace)⟩
  | cons field left ih =>
    obtain ⟨hfield, hleft⟩ := List.cons_subset.mp hleft
    have hnext {start : List UInt8} {u : Taken UInt8 σ start.length}
        (hu : field.read d start = .ok u) {hbound : u.rest.length ≤ bound}
        (hrest : r.elements u.value (count + 1) left u.rest hbound = .ok t) :
        ∃ tree ts, InOrder Fills (field :: left) d (tree :: ts) t.value ∧
          Value tree start u.rest ∧ More Value (byte ']') ts u.rest t.rest := by
      obtain ⟨tree, hvalue, hfills⟩ := hfields field hfield d _ _ hu
      obtain ⟨ts, horder, hmore⟩ := ih hleft hrest
      rw [if_neg (Nat.succ_ne_zero count)] at hmore
      exact ⟨tree, ts, .next hfills horder, hvalue, hmore⟩
    rw [elements] at hread
    split at hread
    · cases hread
    · next b after hshort hspace _ =>
      simp only at hread
      split at hread
      · next hcloser =>
        subst hcloser
        split at hread
        · next hoptional =>
          obtain ⟨rfl, rfl, hrest⟩ := elements_of_end hread
          exact ⟨[], .done (List.forall_mem_cons.mpr ⟨hoptional, hrest⟩),
            no_elements (next_of_skipSpace hspace)⟩
        · cases hread
      · split at hread
        · next hcount =>
          split at hread
          · cases hread
          · next u hu =>
            obtain ⟨tree, ts, horder, hvalue, hmore⟩ := hnext hu hread
            refine ⟨tree :: ts, horder, ?_⟩
            rw [if_pos hcount]
            exact .some (hvalue.of_skipSpace hspace) hmore
        · next hcount =>
          split at hread
          · next hcomma =>
            subst hcomma
            split at hread
            · cases hread
            · next c start _ hspace' _ =>
              split at hread
              · cases hread
              · split at hread
                · cases hread
                · next u hu =>
                  obtain ⟨tree, ts, horder, hvalue, hmore⟩ := hnext hu hread
                  refine ⟨tree :: ts, horder, ?_⟩
                  rw [if_neg hcount]
                  exact .next (next_of_skipSpace hspace) (hvalue.of_skipSpace hspace') hmore
          · cases hread

theorem complete_eq_ok {bound : Nat} {u : Taken UInt8 σ bound} {t : Taken UInt8 α bound}
    (h : r.complete u = .ok t) : r.finish u.value = .ok t.value ∧ u.rest = t.rest := by
  unfold complete at h
  split at h
  · next a ha =>
    cases h
    exact ⟨ha, rfl⟩
  · cases h

variable (r Fills) in
/-- What a record is made of: the members of an object, or the items of an array. -/
inductive Made : Tree → α → Prop
  | object {ms : List (Option String × Tree)} {d : σ} {a : α}
    (hmembers : Gathers (r.Takes Fills) r.start ms d) (hfinish : r.finish d = .ok a) :
    Made (.object ms) a
  | array {ts : List Tree} {d : σ} {a : α} (hitems : InOrder Fills r.fields r.start ts d)
    (hfinish : r.finish d = .ok a) : Made (.array ts) a

/-- **A record that is read** is made of an object or an array of the grammar. -/
theorem read_sound (hfields : ∀ field ∈ r.fields, ∀ d, Sound (Fills field.name d) (field.read d)) :
    Sound (r.Made Fills) r.read := by
  intro bs t hread
  unfold read at hread
  split at hread
  · cases hread
  · next b rest _ hspace _ =>
    simp only at hread
    split at hread
    · next hb =>
      subst hb
      split at hread
      · cases hread
      · next u hu =>
        obtain ⟨hfinish, hrest⟩ := complete_eq_ok hread
        obtain ⟨ts, hitems, hlisted⟩ :=
          elements_sound hfields (List.Subset.refl _) (settle_eq_ok hu)
        rw [if_pos rfl, hrest] at hlisted
        exact ⟨_, (Value.array hlisted).of_skipSpace hspace, .array hitems hfinish⟩
    · split at hread
      · next hb =>
        subst hb
        split at hread
        · cases hread
        · next u hu =>
          obtain ⟨hfinish, hrest⟩ := complete_eq_ok hread
          obtain ⟨ms, hlisted, hmembers⟩ := members_sound (member_sound hfields) (settle_eq_ok hu)
          rw [hrest] at hlisted
          exact ⟨_, (Value.object hlisted).of_skipSpace hspace, .object hmembers hfinish⟩
      · exact absurd hread (refuse_ne_ok _ _ _ t)

/-! ### What all fields keep -/

/-- What a field does to the draft does not break the property. -/
def Keeps (I : σ → Prop) (_ : String) (d : σ) (_ : Tree) (next : σ) : Prop := I d → I next

theorem Takes.keeps {I : σ → Prop} {d next : σ} {m : Option String × Tree}
    (h : r.Takes (Keeps I) d m next) (hd : I d) : I next := by
  cases h with
  | known _ _ hfills => exact hfills hd
  | unknown _ => exact hd

theorem InOrder.keeps {I : σ → Prop} {left : List (Field σ)} {d last : σ} {ts : List Tree}
    (h : InOrder (Keeps I) left d ts last) (hd : I d) : I last := by
  induction h with
  | done => exact hd
  | next hfills _ ih => exact ih (hfills hd)

/-- **What no field breaks** holds of the draft that a record is made of. -/
theorem read_keeps {I : σ → Prop} (hstart : I r.start)
    (hfields : ∀ field ∈ r.fields, ∀ d, Sound (Keeps I field.name d) (field.read d)) :
    Sound (fun _ a => ∃ d, I d ∧ r.finish d = .ok a) r.read := by
  intro bs t hread
  obtain ⟨tree, hvalue, hmade⟩ := read_sound hfields bs t hread
  refine ⟨tree, hvalue, ?_⟩
  cases hmade with
  | @object _ d _ hmembers hfinish =>
    exact ⟨d, hmembers.keeps (fun _ _ _ hstep => hstep.keeps) hstart, hfinish⟩
  | @array _ d _ hitems hfinish => exact ⟨d, hitems.keeps hstart, hfinish⟩

/-! ### One field -/

/-- What a value does to one part of the draft: in the field of that part it is written there, and
in another field it leaves the part alone. -/
def Writes {β : Type} (slot : String) (get : σ → Option β) (Holds : Tree → β → Prop)
    (name : String) (d : σ) (tree : Tree) (next : σ) : Prop :=
  if name = slot then ∃ b, get next = some b ∧ Holds tree b else get next = get d

section Field

variable {β : Type} {slot : String} {get : σ → Option β} {Holds : Tree → β → Prop}
  (hset : ∀ field ∈ r.fields, field.name = slot → ∀ d, field.isSet d = (get d).isSome)
  (hmem : ∃ field ∈ r.fields, field.name = slot)
  (hwrites : ∀ name d tree next, Fills name d tree next → Writes slot get Holds name d tree next)
include hset hmem hwrites

theorem Takes.entry {d next : σ} {m : Option String × Tree} (h : r.Takes Fills d m next) :
    (m.1 = some slot ∧ get d = none ∧ ∃ b, get next = some b ∧ Holds m.2 b) ∨
      (m.1 ≠ some slot ∧ get next = get d) := by
  cases h with
  | @known _ field tree hfield hnew hfills =>
    have hwrite := hwrites _ _ _ _ hfills
    unfold Writes at hwrite
    by_cases hname : field.name = slot
    · rw [if_pos hname] at hwrite
      rw [hset field hfield hname] at hnew
      exact .inl ⟨by rw [hname], by simpa using hnew, hwrite⟩
    · rw [if_neg hname] at hwrite
      exact .inr ⟨by simpa using hname, hwrite⟩
  | @unknown name tree hunknown =>
    obtain ⟨field, hfield, hslot⟩ := hmem
    have hname : name ≠ slot := fun h => hunknown field hfield (hslot.trans h.symm)
    exact .inr ⟨by simpa using hname, rfl⟩

/-- A part of the draft that is written stays, and no member with its name follows. -/
theorem kept_of_gathers {d last : σ} {ms : List (Option String × Tree)}
    (h : Gathers (r.Takes Fills) d ms last) {b : β} (hd : get d = some b) :
    get last = some b ∧ valuesOf slot ms = [] := by
  induction h with
  | nil => exact ⟨hd, rfl⟩
  | cons hfirst _ ih =>
    rcases hfirst.entry hset hmem hwrites with ⟨_, hnone, _⟩ | ⟨hname, hsame⟩
    · rw [hd] at hnone
      cases hnone
    · obtain ⟨hlast, hrest⟩ := ih (hsame.trans hd)
      refine ⟨hlast, ?_⟩
      rw [valuesOf, List.filter_cons_of_neg (by simpa using hname)]
      exact hrest

/-- **One field after all members:** what they say of its name. -/
theorem entry_of_gathers {d last : σ} {ms : List (Option String × Tree)}
    (h : Gathers (r.Takes Fills) d ms last) (hd : get d = none) :
    Entry Holds slot ms (get last) := by
  induction h with
  | nil =>
    rw [hd]
    exact rfl
  | cons hfirst hrest ih =>
    rcases hfirst.entry hset hmem hwrites with ⟨hname, _, b, hb, hholds⟩ | ⟨hname, hsame⟩
    · obtain ⟨hlast, hnone⟩ := kept_of_gathers hset hmem hwrites hrest hb
      rw [hlast]
      refine ⟨_, ?_, hholds⟩
      rw [valuesOf, List.filter_cons_of_pos (by simpa using hname), List.map_cons]
      exact congrArg _ hnone
    · have hentry := ih (hsame.trans hd)
      unfold Entry valuesOf at hentry ⊢
      rwa [List.filter_cons_of_neg (by simpa using hname)]

end Field

theorem isSome_of_gathers {d last : σ} {ms : List (Option String × Tree)}
    (h : Gathers (r.Takes Fills) d ms last) : ∀ m ∈ ms, m.1.isSome = true := by
  induction h with
  | nil => exact nofun
  | cons hfirst _ ih =>
    refine List.forall_mem_cons.mpr ⟨?_, ih⟩
    cases hfirst <;> rfl

/-- **An array is taken for an object** with the names of the fields in their order. -/
theorem InOrder.gathers
    (hframe : ∀ field ∈ r.fields, ∀ other ∈ r.fields, other.name ≠ field.name →
      ∀ d tree next, Fills field.name d tree next → other.isSet next = other.isSet d)
    {left : List (Field σ)} {d last : σ} {ts : List Tree} (h : InOrder Fills left d ts last)
    (hleft : left ⊆ r.fields) (hdistinct : (left.map (·.name)).Nodup)
    (hunset : ∀ field ∈ left, field.isSet d = false) :
    Gathers (r.Takes Fills) d ((left.map fun field => some field.name).zip ts) last := by
  induction h with
  | done =>
    rw [List.zip_nil_right]
    exact .nil
  | @next field left d middle last tree ts hfills _ ih =>
    obtain ⟨hfield, hleft⟩ := List.cons_subset.mp hleft
    obtain ⟨hnew, hdistinct⟩ := List.nodup_cons.mp hdistinct
    obtain ⟨hunset, hothers⟩ := List.forall_mem_cons.mp hunset
    refine .cons (.known hfield hunset hfills) (ih hleft hdistinct fun other hother => ?_)
    have hname : other.name ≠ field.name := by
      intro h
      exact hnew (List.mem_map.mpr ⟨other, hother, h⟩)
    rw [hframe field hfield other (hleft hother) hname _ _ _ hfills]
    exact hothers other hother

theorem InOrder.length_le {left : List (Field σ)} {d last : σ} {ts : List Tree}
    (h : InOrder Fills left d ts last) : ts.length ≤ left.length := by
  induction h with
  | done => exact Nat.zero_le _
  | next _ _ ih => exact Nat.succ_le_succ ih

end Record

end LanguageServer.Json
