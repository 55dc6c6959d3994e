import LanguageServer.Decimal.Integer

/-! # Printed numbers are read back

The digits of a number, as far as the readers of numbers look at them: each is a digit, there is
one, the first is no zero unless it is the only one, and together they give the number.

* `readDigits_eq_ok`: digits within the limit;
* `readInteger_toString`: a printed number;
* `head?_toDigits`: no zero in front. -/

namespace LanguageServer.Decimal

theorem le_ofDigitChars (cs : List Char) (value : Nat) : value ≤ Nat.ofDigitChars 10 cs value := by
  induction cs generalizing value with
  | nil => simp
  | cons c cs ih =>
    rw [Nat.ofDigitChars_cons]
    refine Nat.le_trans ?_ (ih _)
    omega

/-- Digits are read as their number. The number only grows from digit to digit, so it is within the
limit all along if it is in the end. -/
theorem readDigits_eq_ok {limit value : Nat} {overflow : IntegerFault} {cs : List Char}
    (hdigits : ∀ c ∈ cs, c.isDigit = true) (hlimit : Nat.ofDigitChars 10 cs value ≤ limit) :
    readDigits limit overflow value cs = .ok (Nat.ofDigitChars 10 cs value) := by
  induction cs generalizing value with
  | nil => simp [readDigits]
  | cons c cs ih =>
    rw [Nat.ofDigitChars_cons, Nat.mul_comm 10 value] at hlimit ⊢
    have hwithin : ¬ limit < value * 10 + (c.toNat - '0'.toNat) := by
      have hgrows := le_ofDigitChars cs (value * 10 + (c.toNat - '0'.toNat))
      omega
    rw [readDigits, if_pos (hdigits c List.mem_cons_self)]
    simp only [if_neg hwithin]
    exact ih (fun d hd => hdigits d (List.mem_cons_of_mem c hd)) hlimit

theorem isDigit_of_mem_toString {n : Nat} {c : Char} (h : c ∈ (toString n).toList) :
    c.isDigit = true := by
  rw [Nat.toString_eq_repr, Nat.toList_repr] at h
  exact Nat.isDigit_of_mem_toDigits (by decide) (by decide) h

theorem toString_toList_ne_nil (n : Nat) : (toString n).toList ≠ [] := by
  rw [Nat.toString_eq_repr, Nat.toList_repr]
  exact Nat.toDigits_ne_nil

theorem ofDigitChars_toString (n : Nat) : Nat.ofDigitChars 10 (toString n).toList 0 = n := by
  rw [Nat.toString_eq_repr, Nat.toList_repr, Nat.ofDigitChars_ten_toDigits]

theorem readInteger_toString {n : Nat} (h : n ≤ maxInteger) :
    readInteger (toString n).toList = .ok n := by
  have hdigits : ∀ c ∈ (toString n).toList, c.isDigit = true := fun c => isDigit_of_mem_toString
  have hvalue := ofDigitChars_toString n
  have hread : readNumber maxInteger .tooLarge (toString n).toList = .ok n := by
    have hfilled : (toString n).toList.isEmpty = false :=
      List.isEmpty_eq_false_iff.mpr (toString_toList_ne_nil n)
    rw [readNumber, hfilled, if_neg Bool.false_ne_true,
      readDigits_eq_ok hdigits (by rw [hvalue]; exact h), hvalue]
  -- A digit is no sign.
  unfold readInteger
  split
  · next hempty => exact absurd hempty (toString_toList_ne_nil n)
  · next cs hplus => exact absurd (hdigits '+' (hplus ▸ List.mem_cons_self)) (by decide)
  · next cs hminus => exact absurd (hdigits '-' (hminus ▸ List.mem_cons_self)) (by decide)
  · rw [hread]
    rfl

theorem head?_toDigits {n : Nat} (h : 0 < n) : (Nat.toDigits 10 n).head? ≠ some '0' := by
  induction n using Nat.strongRecOn with
  | ind n ih =>
    by_cases hsmall : n < 10
    · have hdigit : ∀ d < 10, 0 < d → Nat.digitChar d ≠ '0' := by decide
      rw [Nat.toDigits_of_lt_base hsmall, List.head?_cons]
      intro heq
      exact hdigit n hsmall h (Option.some.inj heq)
    · have hlarge : 10 ≤ n := Nat.not_lt.mp hsmall
      rw [Nat.toDigits_of_base_le (by decide) hlarge]
      have hfilled : Nat.toDigits 10 (n / 10) ≠ [] := Nat.toDigits_ne_nil
      obtain ⟨c, cs, hcs⟩ := List.exists_cons_of_ne_nil hfilled
      have hfirst := ih (n / 10) (Nat.div_lt_self h (by decide)) (by omega)
      rw [hcs] at hfirst ⊢
      exact hfirst

end LanguageServer.Decimal
