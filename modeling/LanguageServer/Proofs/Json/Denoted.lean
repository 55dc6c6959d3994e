import LanguageServer.Proofs.Json.Skipped
import LanguageServer.Proofs.Json.Value

/-! # Values are read by the grammar

Where a value is read, the grammar has one in that place, whose shape stands for the value that is
given. The loops over the items of an array and over the members of an object serve other readers as
well, so what they do is said for any reader of items.

* `Sound`, `Sound.decodeWith`: what a reader gives is in the grammar;
* `Yields`: what holds of all that a reader gives;
* `elements_sound`, `members_sound`: the loops;
* `value_sound`: values. -/

namespace LanguageServer.Json

/-- Where the reader succeeds, the grammar has a value in the same place, and of its shape and of
what is given the relation holds. -/
def Sound {β : Type} (Holds : Tree → β → Prop) (reader : Reader β) : Prop :=
  ∀ bs t, reader bs = .ok t → ∃ tree, Value tree bs t.rest ∧ Holds tree t.value

theorem Sound.map {β γ : Type} {Holds : Tree → β → Prop} {reader : Reader β}
    (h : Sound Holds reader) {f : β → γ} {Holds' : Tree → γ → Prop}
    (hf : ∀ tree b, Holds tree b → Holds' tree (f b)) :
    Sound Holds' fun bs => (reader bs).map fun t => t.map f := by
  intro bs t hread
  cases hinner : reader bs with
  | error e => simp only [hinner] at hread; cases hread
  | ok u =>
    simp only [hinner] at hread
    cases hread
    obtain ⟨tree, hvalue, hholds⟩ := h _ _ hinner
    exact ⟨tree, hvalue, hf tree u.value hholds⟩

/-- What the reader gives has the property. -/
def Yields {β : Type} (P : β → Prop) (reader : Reader β) : Prop :=
  ∀ bs t, reader bs = .ok t → P t.value

theorem Sound.and {β : Type} {Holds : Tree → β → Prop} {P : β → Prop} {reader : Reader β}
    (h : Sound Holds reader) (hP : Yields P reader) :
    Sound (fun tree b => Holds tree b ∧ P b) reader := by
  intro bs t hread
  obtain ⟨tree, hvalue, hholds⟩ := h bs t hread
  exact ⟨tree, hvalue, hholds, hP bs t hread⟩

theorem Sound.decodeWith {β : Type} {Holds : Tree → β → Prop} {reader : Reader β}
    (h : Sound Holds reader) {text : List UInt8} {b : β} (hread : decodeWith reader text = .ok b) :
    ∃ tree, Spells text tree ∧ Holds tree b := by
  unfold Json.decodeWith at hread
  split at hread
  · cases hread
  · next t ht =>
    split at hread
    · next hend =>
      cases hread
      obtain ⟨tree, hvalue, hholds⟩ := h _ _ ht
      exact ⟨tree, ⟨t.rest, hvalue, blank_of_skipSpace hend⟩, hholds⟩
    · cases hread

/-! ### Loops -/

section Elements

variable {σ : Type} {element : σ → Reader σ} {Step : σ → Tree → σ → Prop}
  (helement : ∀ s, Sound (Step s) (element s))
include helement

theorem moreElements_sound {s : σ} {bound : Nat} {bs : List UInt8} {h : bs.length ≤ bound}
    {t : Taken UInt8 σ bound} (hread : moreElements element s bs h = .ok t) :
    ∃ ts, More Value (byte ']') ts bs t.rest ∧ Gathers Step s ts t.value := by
  rw [moreElements] at hread
  split at hread
  · cases hread
  · next b rest hshort hspace _ =>
    split at hread
    · next hcloser =>
      cases hread
      subst hcloser
      exact ⟨[], .done (next_of_skipSpace hspace), .nil⟩
    · split at hread
      · next hcomma =>
        split at hread
        · cases hread
        · next c after hafter hspace' _ =>
          split at hread
          · cases hread
          · split at hread
            · cases hread
            · next u hu =>
              have hshorter : u.rest.length < bs.length := by
                have hrest := Nat.le_trans u.le_length hafter
                exact Nat.lt_of_lt_of_le (Nat.lt_succ_of_le hrest) hshort
              obtain ⟨tree, hvalue, hstep⟩ := helement _ _ _ hu
              obtain ⟨ts, hmore, hgathers⟩ := moreElements_sound hread
              subst hcomma
              exact ⟨tree :: ts, .next (next_of_skipSpace hspace) (hvalue.of_skipSpace hspace')
                hmore, .cons hstep hgathers⟩
      · cases hread
termination_by bs.length

theorem elements_sound {s : σ} {bound : Nat} {bs : List UInt8} {h : bs.length ≤ bound}
    {t : Taken UInt8 σ bound} (hread : elements element s bs h = .ok t) :
    ∃ ts, Listed Value (byte ']') ts bs t.rest ∧ Gathers Step s ts t.value := by
  unfold elements at hread
  split at hread
  · cases hread
  · next b rest _ hspace _ =>
    split at hread
    · next hcloser =>
      cases hread
      subst hcloser
      exact ⟨[], .none (next_of_skipSpace hspace), .nil⟩
    · split at hread
      · cases hread
      · next u hu =>
        obtain ⟨tree, hvalue, hstep⟩ := helement _ _ _ hu
        obtain ⟨ts, hmore, hgathers⟩ := moreElements_sound helement hread
        exact ⟨tree :: ts, .some (hvalue.of_skipSpace hspace) hmore, .cons hstep hgathers⟩

end Elements

section Members

variable {σ : Type} {member : σ → Reader σ} {Step : σ → Option String × Tree → σ → Prop}
  (hmember : ∀ s bs t, member s bs = .ok t →
    ∃ m, (∀ start, Next (byte '"') start bs → Keyed Value m start t.rest) ∧ Step s m t.value)
include hmember

theorem moreMembers_sound {s : σ} {bound : Nat} {bs : List UInt8} {h : bs.length ≤ bound}
    {t : Taken UInt8 σ bound} (hread : moreMembers member s bs h = .ok t) :
    ∃ ms, More (Keyed Value) (byte '\x7d') ms bs t.rest ∧ Gathers Step s ms t.value := by
  rw [moreMembers] at hread
  split at hread
  · cases hread
  · next b rest hshort hspace _ =>
    split at hread
    · next hcloser =>
      cases hread
      subst hcloser
      exact ⟨[], .done (next_of_skipSpace hspace), .nil⟩
    · split at hread
      · next hcomma =>
        split at hread
        · cases hread
        · next c after hafter hspace' _ =>
          split at hread
          · next hquote =>
            split at hread
            · cases hread
            · next u hu =>
              have hshorter : u.rest.length < bs.length := by
                have hrest := Nat.le_trans u.le_length (tail_le hafter)
                exact Nat.lt_of_lt_of_le (Nat.lt_succ_of_le hrest) hshort
              obtain ⟨m, hkeyed, hstep⟩ := hmember _ _ _ hu
              obtain ⟨ms, hmore, hgathers⟩ := moreMembers_sound hread
              subst hcomma hquote
              exact ⟨m :: ms, .next (next_of_skipSpace hspace)
                (hkeyed _ (next_of_skipSpace hspace')) hmore, .cons hstep hgathers⟩
          · split at hread
            · cases hread
            · cases hread
      · cases hread
termination_by bs.length

theorem members_sound {s : σ} {bound : Nat} {bs : List UInt8} {h : bs.length ≤ bound}
    {t : Taken UInt8 σ bound} (hread : members member s bs h = .ok t) :
    ∃ ms, Listed (Keyed Value) (byte '\x7d') ms bs t.rest ∧ Gathers Step s ms t.value := by
  unfold members at hread
  split at hread
  · cases hread
  · next b rest _ hspace _ =>
    simp only at hread
    split at hread
    · next hcloser =>
      cases hread
      subst hcloser
      exact ⟨[], .none (next_of_skipSpace hspace), .nil⟩
    · split at hread
      · next hquote =>
        split at hread
        · cases hread
        · next u hu =>
          obtain ⟨m, hkeyed, hstep⟩ := hmember _ _ _ hu
          obtain ⟨ms, hmore, hgathers⟩ := moreMembers_sound hmember hread
          subst hquote
          exact ⟨m :: ms, .some (hkeyed _ (next_of_skipSpace hspace)) hmore, .cons hstep hgathers⟩
      · cases hread

end Members

/-! ### Values -/

theorem keyed_of_read {bs : List UInt8} {key : Taken UInt8 String bs.length}
    (hkey : stringText bs (length_le_self _) = .ok key)
    {mark : Taken UInt8 Unit bs.length} (hmark : colon key.rest key.le_length = .ok mark)
    {tree : Tree} {rest : List UInt8} (hvalue : Value tree mark.rest rest) {start : List UInt8}
    (hquote : Next (byte '"') start bs) : Keyed Value (some key.value, tree) start rest := by
  obtain ⟨ps, hchars, htext⟩ := stringText_sound hkey
  rw [← htext]
  exact .mk hquote hchars (colon_sound hmark) hvalue

section Nested

variable {nested : Reader Json}

/-- One more value in front of those read before. -/
def OneMore (read : List Json) (tree : Tree) (next : List Json) : Prop :=
  ∃ v, Shows tree v ∧ next = v :: read

theorem nextElement_sound (hnested : Sound Shows nested) (read : List Json) :
    Sound (OneMore read) (nextElement nested read) :=
  hnested.map fun _ v hshows => ⟨v, hshows, rfl⟩

theorem Gathers.shows {read last : List Json} {ts : List Tree} (h : Gathers OneMore read ts last) :
    ∃ vs, List.Forall₂ Shows ts vs ∧ last = vs.reverse ++ read := by
  induction h with
  | nil => exact ⟨[], .nil, rfl⟩
  | cons hfirst _ ih =>
    obtain ⟨v, hshows, rfl⟩ := hfirst
    obtain ⟨vs, hall, rfl⟩ := ih
    exact ⟨v :: vs, .cons hshows hall, by simp⟩

/-- One more member among those read before. -/
def OneMoreMember (read : List (String × Json)) (m : Option String × Tree)
    (next : List (String × Json)) : Prop :=
  ∃ named, ShowsMember Shows m named ∧ next = insert named.1 named.2 read

theorem nextMember_eq_ok {read : List (String × Json)} {bs : List UInt8}
    {t : Taken UInt8 (List (String × Json)) bs.length}
    (hread : nextMember nested read bs = .ok t) :
    ∃ key mark u, stringText bs (length_le_self _) = .ok key ∧
      colon key.rest key.le_length = .ok mark ∧ nested mark.rest = .ok u ∧
      t.value = insert key.value u.value read ∧ t.rest = u.rest := by
  unfold nextMember at hread
  split at hread
  · cases hread
  · next key hkey =>
    split at hread
    · cases hread
    · next mark hmark =>
      cases hvalue : nested mark.rest with
      | error e => rw [hvalue] at hread; cases hread
      | ok u =>
        rw [hvalue] at hread
        cases hread
        exact ⟨key, mark, u, hkey, hmark, hvalue, rfl, rfl⟩

theorem nextMember_sound (hnested : Sound Shows nested) (read : List (String × Json)) (bs : List UInt8)
    (t : Taken UInt8 (List (String × Json)) bs.length)
    (hread : nextMember nested read bs = .ok t) :
    ∃ m, (∀ start, Next (byte '"') start bs → Keyed Value m start t.rest) ∧
      OneMoreMember read m t.value := by
  obtain ⟨key, mark, u, hkey, hmark, hu, hvalue, hrest⟩ := nextMember_eq_ok hread
  obtain ⟨tree, hgrammar, hshows⟩ := hnested _ _ hu
  rw [hrest, hvalue]
  exact ⟨(some key.value, tree), fun start => keyed_of_read hkey hmark hgrammar,
    (key.value, u.value), .mk hshows, rfl⟩

theorem Gathers.showsMembers {read last : List (String × Json)}
    {ms : List (Option String × Tree)} (h : Gathers OneMoreMember read ms last) :
    ∃ vs, List.Forall₂ (ShowsMember Shows) ms vs ∧
      last = vs.foldl (fun done m => insert m.1 m.2 done) read := by
  induction h with
  | nil => exact ⟨[], .nil, rfl⟩
  | cons hfirst _ ih =>
    obtain ⟨named, hshows, rfl⟩ := hfirst
    obtain ⟨vs, hall, rfl⟩ := ih
    exact ⟨named :: vs, .cons hshows hall, rfl⟩

theorem valueWith_eq_ok {inner : Option (Reader Json)} {bs : List UInt8}
    {t : Taken UInt8 Json bs.length} (hread : valueWith inner bs = .ok t) :
    ∃ b rest, skipSpace bs = b :: rest ∧ ∃ h : rest.length ≤ bs.length,
      (b = byte '[' ∧ ∃ nested u, inner = some nested ∧
        elements (nextElement nested) [] rest h = .ok u ∧
        t = u.map fun vs => .array vs.reverse) ∨
      (b = byte '\x7b' ∧ ∃ nested u, inner = some nested ∧
        members (nextMember nested) [] rest h = .ok u ∧ t = u.map .object) ∨
      scalar? b rest h = some (.ok t) := by
  unfold valueWith at hread
  split at hread
  · cases hread
  · next b rest hshort hspace _ =>
    refine ⟨b, rest, hspace, tail_le_length hshort, ?_⟩
    simp only at hread
    split at hread
    · next hb =>
      split at hread
      · cases hread
      · next nested =>
        cases hu : elements (nextElement nested) [] rest (tail_le_length hshort) with
        | error e => rw [hu] at hread; cases hread
        | ok u =>
          rw [hu] at hread
          cases hread
          exact Or.inl ⟨hb, nested, u, rfl, hu, rfl⟩
    · split at hread
      · next hb =>
        split at hread
        · cases hread
        · next nested =>
          cases hu : members (nextMember nested) [] rest (tail_le_length hshort) with
          | error e => rw [hu] at hread; cases hread
          | ok u =>
            rw [hu] at hread
            cases hread
            exact Or.inr (Or.inl ⟨hb, nested, u, rfl, hu, rfl⟩)
      · split at hread
        · next hscalar =>
          subst hread
          exact Or.inr (Or.inr hscalar)
        · cases hread

theorem sound_valueWith {inner : Option (Reader Json)}
    (hinner : ∀ nested, inner = some nested → Sound Shows nested) :
    Sound Shows (valueWith inner) := by
  intro bs t hread
  obtain ⟨b, rest, hspace, _, hcases⟩ := valueWith_eq_ok hread
  rcases hcases with
    ⟨rfl, nested, u, hnested, hu, rfl⟩ | ⟨rfl, nested, u, hnested, hu, rfl⟩ | hscalar
  · obtain ⟨ts, hlisted, hgathers⟩ :=
      elements_sound (nextElement_sound (hinner nested hnested)) hu
    obtain ⟨vs, hshows, hlast⟩ := hgathers.shows
    refine ⟨_, (Value.array hlisted).of_skipSpace hspace, ?_⟩
    show Shows _ (.array u.value.reverse)
    rw [hlast, List.append_nil, List.reverse_reverse]
    exact .array hshows
  · obtain ⟨ms, hlisted, hgathers⟩ := members_sound (nextMember_sound (hinner nested hnested)) hu
    obtain ⟨vs, hshows, hlast⟩ := hgathers.showsMembers
    refine ⟨_, (Value.object hlisted).of_skipSpace hspace, ?_⟩
    show Shows _ (.object u.value)
    rw [hlast]
    exact .object hshows
  · obtain ⟨tree, hvalue, hshows⟩ := scalar?_sound hscalar
    exact ⟨tree, hvalue.of_skipSpace hspace, hshows⟩

end Nested

/-- **A value that is read** is one of the grammar, whose shape stands for it. -/
theorem value_sound (depth : Nat) : Sound Shows (value depth) := by
  induction depth with
  | zero => exact sound_valueWith fun _ hnested => by cases hnested
  | succ depth ih =>
    refine sound_valueWith fun nested hnested => ?_
    cases hnested
    exact ih

end LanguageServer.Json
