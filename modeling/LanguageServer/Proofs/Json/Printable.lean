import LanguageServer.Proofs.Json.Denoted

/-! # What is read is canonical

A value that is read has integers of 64 bits, its objects have their members in order, and it nests
within the limit of its reader. So it is canonical, unless there is a floating-point number in it:
that is all that may be lost when it is printed and read again.

* `Floatless`, `Printable`: values without floating-point numbers, and what is said of the others;
* `number_cases`, `printable_scalar`: values without parts;
* `printable_valueWith`: arrays and objects, by what holds of the values inside;
* `value_printable`: values, by induction on the limit. -/

namespace LanguageServer.Json

/-- No floating-point number is in the value. -/
inductive Floatless : Json → Prop
  | null : Floatless .null
  | bool (value : Bool) : Floatless (.bool value)
  | integer (n : Int) : Floatless (.integer n)
  | string (s : String) : Floatless (.string s)
  | array {vs : List Json} (h : ∀ v ∈ vs, Floatless v) : Floatless (.array vs)
  | object {ms : List (String × Json)} (h : ∀ m ∈ ms, Floatless m.2) : Floatless (.object ms)

/-- The value is canonical, floating-point numbers apart. -/
def Printable (depth : Nat) (v : Json) : Prop := Floatless v → Canonical depth v

/-! ### Values without parts -/

section Scalars

variable {bound : Nat} {bs : List UInt8}

theorem digits_le {limit value : Nat} (hvalue : value ≤ limit) (count : Nat)
    (h : bs.length ≤ bound) : (digits limit value count bs h).value.1 ≤ limit := by
  induction bs generalizing value count with
  | nil => exact hvalue
  | cons b bs ih =>
    rw [digits]
    split
    · next hnext =>
      obtain ⟨-, hle⟩ := Bool.and_eq_true_iff.mp hnext
      exact ih (of_decide_eq_true hle) (count + 1) (tail_le h)
    · exact hvalue

theorem digitValue_le (b : UInt8) : digitValue b ≤ maxSignificand := by
  have hb := b.toNat_lt
  unfold digitValue maxSignificand
  omega

theorem number_cases {negative : Bool} {b : UInt8} {h : bs.length ≤ bound}
    {t : Taken UInt8 Json bound} (hread : number negative b bs h = .ok t) :
    IsFloat t.value ∨ ∃ n ≤ maxSignificand, t.value = whole negative n := by
  unfold number at hread
  split at hread
  · split at hread
    · cases hread
    · rcases afterWhole_sound hread with ⟨-, hvalue⟩ | ⟨-, hfloat⟩
      · exact Or.inr ⟨0, Nat.zero_le _, hvalue⟩
      · exact Or.inl hfloat
  · split at hread
    · simp only at hread
      split at hread
      · obtain ⟨_, _, -, -, -, hfloat⟩ := afterLongWhole_sound hread
        exact Or.inl hfloat
      · rcases afterWhole_sound hread with ⟨-, hvalue⟩ | ⟨-, hfloat⟩
        · exact Or.inr ⟨_, digits_le (digitValue_le b) 0 h, hvalue⟩
        · exact Or.inl hfloat
    · cases hread

theorem printable_whole (depth : Nat) (negative : Bool) {n : Nat} (hn : n ≤ maxSignificand) :
    Printable depth (whole negative n) := by
  intro hfloatless
  unfold maxSignificand at hn
  unfold whole at hfloatless ⊢
  cases negative with
  | false =>
    refine (canonical_integer depth _).mpr ?_
    omega
  | true =>
    simp only [Bool.not_true, Bool.false_eq_true, if_false] at hfloatless ⊢
    split at hfloatless
    · cases hfloatless
    · next hfits =>
      rw [if_neg hfits]
      refine (canonical_integer depth _).mpr ?_
      omega

theorem printable_number (depth : Nat) {negative : Bool} {b : UInt8} {h : bs.length ≤ bound}
    {t : Taken UInt8 Json bound} (hread : number negative b bs h = .ok t) :
    Printable depth t.value := by
  rcases number_cases hread with ⟨x, hvalue⟩ | ⟨n, hn, hvalue⟩
  · rw [hvalue]
    exact nofun
  · rw [hvalue]
    exact printable_whole depth negative hn

theorem value_of_map {α : Type} {scan : Scan α bound} {f : α → Json} {t : Taken UInt8 Json bound}
    (h : (scan.map fun u => u.map f) = .ok t) : ∃ a, t.value = f a := by
  cases scan with
  | error e => cases h
  | ok u =>
    cases h
    exact ⟨u.value, rfl⟩

theorem printable_scalar (depth : Nat) {b : UInt8} {h : bs.length ≤ bound}
    {t : Taken UInt8 Json bound} (hread : scalar? b bs h = some (.ok t)) :
    Printable depth t.value := by
  unfold scalar? at hread
  split at hread
  · obtain ⟨_, hvalue⟩ := value_of_map (Option.some.inj hread)
    exact fun _ => hvalue ▸ canonical_null depth
  split at hread
  · obtain ⟨_, hvalue⟩ := value_of_map (Option.some.inj hread)
    exact fun _ => hvalue ▸ canonical_bool depth true
  split at hread
  · obtain ⟨_, hvalue⟩ := value_of_map (Option.some.inj hread)
    exact fun _ => hvalue ▸ canonical_bool depth false
  split at hread
  · obtain ⟨s, hvalue⟩ := value_of_map (Option.some.inj hread)
    exact fun _ => hvalue ▸ canonical_string depth s
  split at hread
  · have hread := Option.some.inj hread
    unfold negativeNumber at hread
    split at hread
    · cases hread
    · exact printable_number depth hread
  split at hread
  · exact printable_number depth (Option.some.inj hread)
  · cases hread

end Scalars

/-! ### Arrays and objects -/

/-- One more member, with a printable value, among those read before. -/
def OneMorePrintable (depth : Nat) (read : List (String × Json)) (_ : Option String × Tree)
    (next : List (String × Json)) : Prop :=
  ∃ key v, Printable depth v ∧ next = insert key v read

section Nested

variable {depth : Nat} {nested : Reader Json} (hsound : Sound Shows nested)
  (hyields : Yields (Printable depth) nested) {bound : Nat} {bs : List UInt8} {h : bs.length ≤ bound}
include hsound hyields

theorem printable_elements {u : Taken UInt8 (List Json) bound}
    (hread : elements (nextElement nested) [] bs h = .ok u) : ∀ v ∈ u.value, Printable depth v := by
  have helement (read : List Json) :
      Sound (fun _ next => ∃ v, Printable depth v ∧ next = v :: read) (nextElement nested read) :=
    (hsound.and hyields).map fun _ v hv => ⟨v, hv.2, rfl⟩
  obtain ⟨ts, -, hgathers⟩ := elements_sound helement hread
  refine Gathers.keeps (I := fun read => ∀ v ∈ read, Printable depth v) ?_ hgathers nofun
  rintro read _ _ ⟨v, hv, rfl⟩ hall
  exact List.forall_mem_cons.mpr ⟨hv, hall⟩

theorem printable_members {u : Taken UInt8 (List (String × Json)) bound}
    (hread : members (nextMember nested) [] bs h = .ok u) :
    Increasing u.value ∧ ∀ m ∈ u.value, Printable depth m.2 := by
  have hmember (read : List (String × Json)) (bs : List UInt8)
      (t : Taken UInt8 (List (String × Json)) bs.length) (hread : nextMember nested read bs = .ok t) :
      ∃ m, (∀ start, Next (byte '"') start bs → Keyed Value m start t.rest) ∧
        OneMorePrintable depth read m t.value := by
    obtain ⟨m, hkeyed, -⟩ := nextMember_sound hsound read bs t hread
    obtain ⟨key, mark, u, -, -, hu, hvalue, -⟩ := nextMember_eq_ok hread
    exact ⟨m, hkeyed, key.value, u.value, hyields _ _ hu, hvalue⟩
  obtain ⟨ms, -, hgathers⟩ := members_sound hmember hread
  refine Gathers.keeps (I := fun read => Increasing read ∧ ∀ m ∈ read, Printable depth m.2) ?_
    hgathers ⟨List.Pairwise.nil, nofun⟩
  rintro read _ _ ⟨key, v, hv, rfl⟩ ⟨hordered, hall⟩
  refine ⟨increasing_insert hordered, fun m hm => ?_⟩
  rcases mem_of_mem_insert hm with rfl | hm
  · exact hv
  · exact hall m hm

end Nested

theorem printable_valueWith {depth : Nat} {inner : Option (Reader Json)}
    (hinner : ∀ nested, inner = some nested → ∃ less, depth = less + 1 ∧ Sound Shows nested ∧
      Yields (Printable less) nested) : Yields (Printable depth) (valueWith inner) := by
  intro bs t hread
  obtain ⟨b, rest, -, _, hcases⟩ := valueWith_eq_ok hread
  rcases hcases with ⟨-, nested, u, hnested, hu, rfl⟩ | ⟨-, nested, u, hnested, hu, rfl⟩ | hscalar
  · obtain ⟨less, rfl, hsound, hyields⟩ := hinner nested hnested
    have hall := printable_elements hsound hyields hu
    intro hfloatless
    cases hfloatless with
    | array hvs =>
      exact fun v hv => hall v (List.mem_reverse.mp hv) (hvs v hv)
  · obtain ⟨less, rfl, hsound, hyields⟩ := hinner nested hnested
    obtain ⟨hordered, hall⟩ := printable_members hsound hyields hu
    intro hfloatless
    cases hfloatless with
    | object hms => exact ⟨hordered, fun m hm => hall m hm (hms m hm)⟩
  · exact printable_scalar depth hscalar

/-- **A value that is read is canonical,** if no floating-point number is in it. -/
theorem value_printable (depth : Nat) : Yields (Printable depth) (value depth) := by
  induction depth with
  | zero => exact printable_valueWith fun _ hnested => nomatch hnested
  | succ depth ih =>
    refine printable_valueWith fun nested hnested => ?_
    cases hnested
    exact ⟨depth, rfl, value_sound depth, ih⟩

end LanguageServer.Json
