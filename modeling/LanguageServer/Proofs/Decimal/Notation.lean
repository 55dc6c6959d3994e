import LanguageServer.Proofs.Decimal.Integer

/-! # Which texts are integers

An integer is written as an optional sign and one or more digits. `Spells` says so without reading:
the number is what the digits denote, all of them at once. The reader goes from digit to digit and
stops at the first that makes the number too long, and yet it accepts exactly the texts that spell
an integer of 64 bits with a sign.

* `Spells.unique`: a text spells at most one integer;
* `readNumber_eq_ok_iff`: digits within a limit;
* `readInteger_eq_ok_iff`: integers. -/

namespace LanguageServer.Decimal

/-- One or more digits that denote a number. -/
def Denotes (digits : List Char) (n : Nat) : Prop :=
  digits ≠ [] ∧ (∀ c ∈ digits, c.isDigit = true) ∧ Nat.ofDigitChars 10 digits 0 = n

/-- **The notation of integers:** an optional sign and one or more digits. -/
inductive Spells : List Char → Int → Prop
  | unsigned {digits : List Char} {n : Nat} : Denotes digits n → Spells digits n
  | plus {digits : List Char} {n : Nat} : Denotes digits n → Spells ('+' :: digits) n
  | minus {digits : List Char} {n : Nat} : Denotes digits n → Spells ('-' :: digits) (-n)

theorem Denotes.unique {digits : List Char} {n m : Nat} (hn : Denotes digits n)
    (hm : Denotes digits m) : n = m := hn.2.2.symm.trans hm.2.2

theorem Denotes.head_isDigit {c : Char} {cs : List Char} {n : Nat} (h : Denotes (c :: cs) n) :
    c.isDigit = true := h.2.1 c List.mem_cons_self

theorem Spells.unique {cs : List Char} {n m : Int} (hn : Spells cs n) (hm : Spells cs m) :
    n = m := by
  cases hn with
  | unsigned hn =>
    cases hm with
    | unsigned hm => rw [hn.unique hm]
    | plus => exact absurd hn.head_isDigit (by decide)
    | minus => exact absurd hn.head_isDigit (by decide)
  | plus hn =>
    cases hm with
    | unsigned hm => exact absurd hm.head_isDigit (by decide)
    | plus hm => rw [hn.unique hm]
  | minus hn =>
    cases hm with
    | unsigned hm => exact absurd hm.head_isDigit (by decide)
    | minus hm => rw [hn.unique hm]

/-! ### Digits -/

theorem of_readDigits_eq_ok {limit value n : Nat} {overflow : IntegerFault} {cs : List Char}
    (hvalue : value ≤ limit) (h : readDigits limit overflow value cs = .ok n) :
    (∀ c ∈ cs, c.isDigit = true) ∧ Nat.ofDigitChars 10 cs value = n ∧ n ≤ limit := by
  induction cs generalizing value with
  | nil =>
    cases h
    exact ⟨by simp, by simp, hvalue⟩
  | cons c cs ih =>
    rw [readDigits] at h
    by_cases hdigit : c.isDigit = true
    · rw [if_pos hdigit] at h
      simp only at h
      by_cases hlimit : limit < value * 10 + (c.toNat - '0'.toNat)
      · rw [if_pos hlimit] at h
        cases h
      · rw [if_neg hlimit] at h
        obtain ⟨hdigits, hn, hle⟩ := ih (Nat.le_of_not_lt hlimit) h
        refine ⟨List.forall_mem_cons.mpr ⟨hdigit, hdigits⟩, ?_, hle⟩
        rw [Nat.ofDigitChars_cons, Nat.mul_comm 10 value]
        exact hn
    · rw [if_neg hdigit] at h
      cases h

/-- **The digits that are read** are those that denote a number within the limit. -/
theorem readNumber_eq_ok_iff {limit n : Nat} {overflow : IntegerFault} {cs : List Char} :
    readNumber limit overflow cs = .ok n ↔ Denotes cs n ∧ n ≤ limit := by
  unfold readNumber
  by_cases hcs : cs = []
  · rw [if_pos (List.isEmpty_iff.mpr hcs)]
    exact ⟨nofun, fun h => absurd hcs h.1.1⟩
  · rw [if_neg (by rwa [List.isEmpty_iff])]
    constructor
    · intro h
      obtain ⟨hdigits, hn, hle⟩ := of_readDigits_eq_ok (Nat.zero_le limit) h
      exact ⟨⟨hcs, hdigits, hn⟩, hle⟩
    · rintro ⟨⟨-, hdigits, rfl⟩, hle⟩
      exact readDigits_eq_ok hdigits hle

/-! ### Integers -/

/-- The integer fits 64 bits with a sign. -/
def Fits (n : Int) : Prop := -((maxInteger : Int) + 1) ≤ n ∧ n ≤ maxInteger

theorem readInteger_of_denotes {cs : List Char} {n : Nat} (h : Denotes cs n) :
    readInteger cs = (readNumber maxInteger .tooLarge cs).map Int.ofNat := by
  unfold readInteger
  split
  · exact absurd rfl h.1
  · exact absurd h.head_isDigit (by decide)
  · exact absurd h.head_isDigit (by decide)
  · rfl

theorem readInteger_minus (cs : List Char) :
    readInteger ('-' :: cs) =
      (readNumber (maxInteger + 1) .tooSmall cs).map fun n : Nat => -(n : Int) := by
  rw [readInteger]
  cases readNumber (maxInteger + 1) .tooSmall cs <;> rfl

theorem map_eq_ok {ε α β : Type} {r : Except ε α} {f : α → β} {b : β} :
    r.map f = .ok b ↔ ∃ a, r = .ok a ∧ f a = b := by
  cases r with
  | error e => exact ⟨nofun, fun ⟨_, h, _⟩ => nomatch h⟩
  | ok a => simp [Except.map]

/-- **The texts that are read as integers** are those that spell one of 64 bits. -/
theorem readInteger_eq_ok_iff {cs : List Char} {n : Int} :
    readInteger cs = .ok n ↔ Spells cs n ∧ Fits n := by
  constructor
  · intro h
    unfold readInteger at h
    unfold Fits
    split at h
    · cases h
    · obtain ⟨k, hk, rfl⟩ := map_eq_ok.mp h
      obtain ⟨hdenotes, hle⟩ := readNumber_eq_ok_iff.mp hk
      exact ⟨.plus hdenotes, by simp only [Int.ofNat_eq_natCast]; omega⟩
    · next cs =>
      obtain ⟨k, hk, rfl⟩ := map_eq_ok.mp ((readInteger_minus cs).symm.trans h)
      obtain ⟨hdenotes, hle⟩ := readNumber_eq_ok_iff.mp hk
      exact ⟨.minus hdenotes, by omega⟩
    · obtain ⟨k, hk, rfl⟩ := map_eq_ok.mp h
      obtain ⟨hdenotes, hle⟩ := readNumber_eq_ok_iff.mp hk
      exact ⟨.unsigned hdenotes, by simp only [Int.ofNat_eq_natCast]; omega⟩
  · rintro ⟨hspells, hlow, hhigh⟩
    cases hspells with
    | unsigned h =>
      rw [readInteger_of_denotes h, readNumber_eq_ok_iff.mpr ⟨h, by omega⟩]
      rfl
    | plus h =>
      rw [readInteger, readNumber_eq_ok_iff.mpr ⟨h, by omega⟩]
      rfl
    | minus h =>
      rw [readInteger_minus, readNumber_eq_ok_iff.mpr ⟨h, by omega⟩]
      rfl

end LanguageServer.Decimal
