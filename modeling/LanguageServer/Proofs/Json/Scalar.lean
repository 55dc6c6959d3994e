import LanguageServer.Json.Read
import LanguageServer.Proofs.Decimal.Integer
import LanguageServer.Proofs.Text.Utf8

/-! # Printed strings and integers are read back

The readers of JSON undo what the printer does, whatever bytes follow. For a string that is the
closing quote; for an integer the bytes after it must not prolong it (`Stops`).

* `stringText_encode`: a string, character by character (`stringBytes_escapeChar`);
* `digits_append`, `number_toDigits`: the digits of a number;
* `scalar?_toString`: an integer. -/

namespace LanguageServer.Json

open LanguageServer.Text

/-- The scan reads `a` and leaves `rest`. -/
def Gives {α : Type} {bound : Nat} (scan : Scan α bound) (a : α) (rest : List UInt8) : Prop :=
  ∃ h, scan = .ok ⟨a, rest, h⟩

section Gives

variable {α β : Type} {bound : Nat} {scan : Scan α bound} {a : α} {rest : List UInt8}

theorem Gives.map (h : Gives scan a rest) (f : α → β) :
    Gives (scan.map fun t => t.map f) (f a) rest := by
  obtain ⟨hrest, rfl⟩ := h
  exact ⟨hrest, rfl⟩

end Gives

/-! ### Strings -/

section Strings

variable {bound : Nat} {read tail rest : List UInt8}

theorem stringBytes_plain {bs : List UInt8}
    (hplain : ∀ b ∈ bs, b ≠ byte '"' ∧ b ≠ byte '\\' ∧ ¬ b < 0x20)
    (h : (bs ++ tail).length ≤ bound) (h' : tail.length ≤ bound) :
    stringBytes read (bs ++ tail) h = stringBytes (bs.reverse ++ read) tail h' := by
  induction bs generalizing read with
  | nil => rfl
  | cons b bs ih =>
    obtain ⟨hquote, hbackslash, hcontrol⟩ := hplain b List.mem_cons_self
    simp only [List.cons_append]
    rw [stringBytes, if_neg hquote, if_neg hbackslash, if_neg hcontrol,
      ih fun c hc => hplain c (List.mem_cons_of_mem b hc)]
    simp only [List.reverse_cons, List.append_assoc, List.singleton_append]

theorem stringBytes_escape {e : List UInt8}
    (he : Gives (escaped tail (length_le_self tail)) e rest)
    (h : (byte '\\' :: tail).length ≤ bound) (h' : rest.length ≤ bound) :
    stringBytes read (byte '\\' :: tail) h = stringBytes (e.reverse ++ read) rest h' := by
  obtain ⟨hrest, hescaped⟩ := he
  rw [stringBytes, if_neg (by decide), if_pos rfl, hescaped]

theorem escaped_letter {b e : UInt8} (hb : b ≠ byte 'u') (he : escapeByte? b = some e)
    (h : (b :: rest).length ≤ bound) : Gives (escaped (b :: rest) h) [e] rest := by
  rw [escaped, if_neg hb, he]
  exact ⟨_, rfl⟩

theorem hexValue?_digitChar : ∀ d < 16, hexValue? (byte (Nat.digitChar d)) = some d := by decide

theorem escaped_control {n : Nat} (hn : n < 0x20)
    (h : (byte 'u' :: byte '0' :: byte '0' :: byte (Nat.digitChar (n / 16)) ::
      byte (Nat.digitChar (n % 16)) :: rest).length ≤ bound) :
    Gives (escaped (byte 'u' :: byte '0' :: byte '0' :: byte (Nat.digitChar (n / 16)) ::
      byte (Nat.digitChar (n % 16)) :: rest) h) (String.utf8EncodeChar (Char.ofNat n)) rest := by
  have hzero : hexValue? (byte '0') = some 0 := by decide
  have hhigh := hexValue?_digitChar (n / 16) (by omega)
  have hlow := hexValue?_digitChar (n % 16) (by omega)
  have hvalue : ((0 * 16 + 0) * 16 + n / 16) * 16 + n % 16 = n := by omega
  have htrailing : isTrailing n = false := by
    simp only [isTrailing, Bool.and_eq_false_iff, decide_eq_false_iff_not]
    omega
  have hleading : isLeading n = false := by
    simp only [isLeading, Bool.and_eq_false_iff, decide_eq_false_iff_not]
    omega
  rw [escaped, if_pos rfl, numberedChar, hexEscape, hzero, hhigh, hlow]
  simp only [hvalue, htrailing, hleading]
  exact ⟨_, rfl⟩

theorem plain_of_mem_encodeChar {c : Char} (hquote : c ≠ '"') (hbackslash : c ≠ '\\')
    (hcontrol : ¬ c.toNat < 0x20) {b : UInt8} (hb : b ∈ String.utf8EncodeChar c) :
    b ≠ byte '"' ∧ b ≠ byte '\\' ∧ ¬ b < 0x20 := by
  have hchar : ∀ d : Char, b = byte d → (byte d).toNat = d.toNat → d.toNat < 0x80 → c = d := by
    rintro d rfl hd hascii
    rcases Utf8.toNat_of_mem_encodeChar hb with heq | hhigh
    · exact Char.ext (UInt32.toNat_inj.mp (heq.symm.trans hd))
    · omega
  refine ⟨fun hb => hquote (hchar _ hb (by decide) (by decide)),
    fun hb => hbackslash (hchar _ hb (by decide) (by decide)), ?_⟩
  rw [UInt8.lt_iff_toNat_lt]
  show ¬ b.toNat < 0x20
  rcases Utf8.toNat_of_mem_encodeChar hb with heq | hhigh
  · omega
  · omega

theorem escapeChar_cases (c : Char) :
    (∃ l e, escapeChar c = ['\\', l] ∧ l.toNat < 0x80 ∧ byte l ≠ byte 'u' ∧
      escapeByte? (byte l) = some e ∧ String.utf8EncodeChar c = [e]) ∨
    (c.toNat < 0x20 ∧ escapeChar c = ['\\', 'u', '0', '0', Nat.digitChar (c.toNat / 16),
      Nat.digitChar (c.toNat % 16)]) ∨
    (c ≠ '"' ∧ c ≠ '\\' ∧ ¬ c.toNat < 0x20 ∧ escapeChar c = [c]) := by
  by_cases hquote : c = '"'
  · exact Or.inl ⟨'"', _, by rw [hquote]; rfl, by decide, by decide, rfl, by rw [hquote]; rfl⟩
  by_cases hbackslash : c = '\\'
  · exact Or.inl ⟨'\\', _, by rw [hbackslash]; rfl, by decide, by decide, rfl,
      by rw [hbackslash]; rfl⟩
  by_cases hb : c = '\x08'
  · exact Or.inl ⟨'b', _, by rw [hb]; rfl, by decide, by decide, rfl, by rw [hb]; rfl⟩
  by_cases hf : c = '\x0c'
  · exact Or.inl ⟨'f', _, by rw [hf]; rfl, by decide, by decide, rfl, by rw [hf]; rfl⟩
  by_cases hn : c = '\n'
  · exact Or.inl ⟨'n', _, by rw [hn]; rfl, by decide, by decide, rfl, by rw [hn]; rfl⟩
  by_cases hr : c = '\r'
  · exact Or.inl ⟨'r', _, by rw [hr]; rfl, by decide, by decide, rfl, by rw [hr]; rfl⟩
  by_cases ht : c = '\t'
  · exact Or.inl ⟨'t', _, by rw [ht]; rfl, by decide, by decide, rfl, by rw [ht]; rfl⟩
  have hrest : escapeChar c = if c.toNat < 0x20 then
      ['\\', 'u', '0', '0', Nat.digitChar (c.toNat / 16), Nat.digitChar (c.toNat % 16)]
      else [c] := by
    rw [escapeChar, if_neg hquote, if_neg hbackslash, if_neg hb, if_neg hf, if_neg hn, if_neg hr,
      if_neg ht]
  by_cases hcontrol : c.toNat < 0x20
  · rw [if_pos hcontrol] at hrest
    exact Or.inr (Or.inl ⟨hcontrol, hrest⟩)
  · rw [if_neg hcontrol] at hrest
    exact Or.inr (Or.inr ⟨hquote, hbackslash, hcontrol, hrest⟩)

theorem stringBytes_escapeChar (c : Char)
    (h : (Utf8.encode (escapeChar c) ++ tail).length ≤ bound) (h' : tail.length ≤ bound) :
    stringBytes read (Utf8.encode (escapeChar c) ++ tail) h =
      stringBytes ((String.utf8EncodeChar c).reverse ++ read) tail h' := by
  rcases escapeChar_cases c with ⟨l, e, hc, hl, hu, he, hbytes⟩ | ⟨hcontrol, hc⟩ |
    ⟨hquote, hbackslash, hcontrol, hc⟩
  · have hencode : Utf8.encode (escapeChar c) = [byte '\\', byte l] := by
      rw [hc]
      refine Utf8.encode_of_ascii fun d hd => ?_
      simp only [List.mem_cons, List.not_mem_nil, or_false] at hd
      rcases hd with rfl | rfl
      · decide
      · exact hl
    simp only [hencode, List.cons_append, List.nil_append] at h ⊢
    rw [stringBytes_escape (escaped_letter hu he _) h h', hbytes]
  · have hascii : ∀ d < 16, (Nat.digitChar d).toNat < 0x80 := by decide
    have hencode : Utf8.encode (escapeChar c) = [byte '\\', byte 'u', byte '0', byte '0',
        byte (Nat.digitChar (c.toNat / 16)), byte (Nat.digitChar (c.toNat % 16))] := by
      rw [hc]
      refine Utf8.encode_of_ascii fun d hd => ?_
      simp only [List.mem_cons, List.not_mem_nil, or_false] at hd
      rcases hd with rfl | rfl | rfl | rfl | rfl | rfl
      any_goals decide
      · exact hascii _ (by omega)
      · exact hascii _ (by omega)
    simp only [hencode, List.cons_append, List.nil_append] at h ⊢
    rw [stringBytes_escape (escaped_control hcontrol _) h h', Char.ofNat_toNat]
  · have hencode : Utf8.encode (escapeChar c) = String.utf8EncodeChar c := by
      rw [hc, Utf8.encode_cons, Utf8.encode_nil, List.append_nil]
    simp only [hencode] at h ⊢
    exact stringBytes_plain (fun b hb => plain_of_mem_encodeChar hquote hbackslash hcontrol hb) h h'

theorem stringBytes_encode (read : List UInt8) (cs : List Char)
    (h : (Utf8.encode (cs.flatMap escapeChar) ++ byte '"' :: rest).length ≤ bound) :
    Gives (stringBytes read (Utf8.encode (cs.flatMap escapeChar) ++ byte '"' :: rest) h)
      (read.reverse ++ Utf8.encode cs) rest := by
  induction cs generalizing read with
  | nil =>
    simp only [List.flatMap_nil, Utf8.encode_nil, List.nil_append, List.append_nil]
    rw [stringBytes, if_pos rfl]
    exact ⟨_, rfl⟩
  | cons c cs ih =>
    have h' : (Utf8.encode (cs.flatMap escapeChar) ++ byte '"' :: rest).length ≤ bound := by
      simp only [List.flatMap_cons, Utf8.encode_append, List.length_append] at h ⊢
      omega
    have hread := ih ((String.utf8EncodeChar c).reverse ++ read) h'
    simp only [List.flatMap_cons, Utf8.encode_append, List.append_assoc] at h ⊢
    rw [stringBytes_escapeChar c h h', Utf8.encode_cons]
    simpa using hread

/-- **A printed string is read back,** after its opening quote. -/
theorem stringText_encode (s : String)
    (h : (Utf8.encode (s.toList.flatMap escapeChar) ++ byte '"' :: rest).length ≤ bound) :
    Gives (stringText (Utf8.encode (s.toList.flatMap escapeChar) ++ byte '"' :: rest) h) s
      rest := by
  obtain ⟨hrest, hread⟩ := stringBytes_encode [] s.toList h
  have hdecode : Utf8.decode? ([].reverse ++ Utf8.encode s.toList) = some s :=
    Utf8.decode?_ofString s
  rw [stringText, hread]
  simp only [hdecode]
  exact ⟨_, rfl⟩

end Strings

/-! ### Integers -/

/-- The bytes after a number do not prolong it. -/
def Stops (rest : List UInt8) : Prop :=
  ∀ b ∈ rest.head?, isDigit b = false ∧ b ≠ byte '.' ∧ b ≠ byte 'e' ∧ b ≠ byte 'E'

theorem stops_nil : Stops [] := fun _ hb => by cases hb

theorem stops_cons {b : UInt8} {rest : List UInt8}
    (h : isDigit b = false ∧ b ≠ byte '.' ∧ b ≠ byte 'e' ∧ b ≠ byte 'E') : Stops (b :: rest) := by
  rintro c hc
  cases hc
  exact h

section Integers

variable {bound : Nat} {rest : List UInt8}

theorem Stops.digitNext (h : Stops rest) : digitNext rest = false := by
  cases rest with
  | nil => rfl
  | cons b rest => exact (h b rfl).1

theorem toNat_byte_of_isDigit {c : Char} (h : c.isDigit = true) : (byte c).toNat = c.toNat := by
  obtain ⟨-, hhigh⟩ := Char.isDigit_iff_toNat.mp h
  exact Utf8.toNat_ofNat_of_lt (Nat.lt_of_le_of_lt hhigh (by decide))

theorem isDigit_byte {c : Char} (h : c.isDigit = true) : isDigit (byte c) = true := by
  obtain ⟨hlow, hhigh⟩ := Char.isDigit_iff_toNat.mp h
  simp only [isDigit, Bool.and_eq_true, decide_eq_true_eq, UInt8.le_iff_toNat_le,
    toNat_byte_of_isDigit h]
  exact ⟨hlow, hhigh⟩

theorem digitValue_byte {c : Char} (h : c.isDigit = true) :
    digitValue (byte c) = c.toNat - '0'.toNat := by
  rw [digitValue, toNat_byte_of_isDigit h]
  rfl

theorem digits_append {limit value : Nat} (count : Nat) {cs : List Char}
    (hdigits : ∀ c ∈ cs, c.isDigit = true) (hlimit : Nat.ofDigitChars 10 cs value ≤ limit)
    (hrest : Stops rest) (h : (cs.map byte ++ rest).length ≤ bound) (h' : rest.length ≤ bound) :
    digits limit value count (cs.map byte ++ rest) h =
      ⟨(Nat.ofDigitChars 10 cs value, count + cs.length), rest, h'⟩ := by
  induction cs generalizing value count with
  | nil =>
    cases rest with
    | nil => simp [digits]
    | cons b rest =>
      have hb := (hrest b rfl).1
      simp [digits, hb]
  | cons c cs ih =>
    have hc := hdigits c List.mem_cons_self
    rw [Nat.ofDigitChars_cons, Nat.mul_comm 10 value] at hlimit
    have hwithin : value * 10 + (c.toNat - '0'.toNat) ≤ limit :=
      Nat.le_trans (Decimal.le_ofDigitChars cs _) hlimit
    simp only [List.map_cons, List.cons_append]
    rw [digits, isDigit_byte hc, digitValue_byte hc]
    simp only [hwithin, decide_true, Bool.and_self, if_true]
    rw [ih (count + 1) (fun d hd => hdigits d (List.mem_cons_of_mem c hd)) hlimit]
    simp only [Nat.ofDigitChars_cons, Nat.mul_comm 10 value, List.length_cons]
    simp only [Nat.add_assoc, Nat.add_comm 1]

theorem afterWhole_stops (negative : Bool) (significand : Nat) (hrest : Stops rest)
    (h : rest.length ≤ bound) :
    afterWhole negative significand rest h = .ok ⟨whole negative significand, rest, h⟩ := by
  cases rest with
  | nil => rfl
  | cons b rest =>
    obtain ⟨-, hpoint, he, hE⟩ := hrest b rfl
    simp [afterWhole, hpoint, he, hE]

theorem encode_digits {cs : List Char} (h : ∀ c ∈ cs, c.isDigit = true) :
    Utf8.encode cs = cs.map byte := by
  refine Utf8.encode_of_ascii fun c hc => ?_
  obtain ⟨-, hhigh⟩ := Char.isDigit_iff_toNat.mp (h c hc)
  exact Nat.lt_of_le_of_lt hhigh (by decide)

theorem number_toDigits (negative : Bool) {n : Nat} (hn : n ≤ maxSignificand) :
    ∃ b bs, Utf8.encode (Nat.toDigits 10 n) = b :: bs ∧ isDigit b = true ∧
      ∀ rest, Stops rest → ∀ (bound : Nat) (h : (bs ++ rest).length ≤ bound),
        Gives (number negative b (bs ++ rest) h) (whole negative n) rest := by
  have hfilled : Nat.toDigits 10 n ≠ [] := Nat.toDigits_ne_nil
  obtain ⟨c, cs, hcs⟩ := List.exists_cons_of_ne_nil hfilled
  have hdigits : ∀ d ∈ c :: cs, d.isDigit = true := fun d hd =>
    Nat.isDigit_of_mem_toDigits (by decide) (by decide) (hcs ▸ hd)
  have hc := hdigits c List.mem_cons_self
  refine ⟨byte c, cs.map byte, ?_, isDigit_byte hc, ?_⟩
  · rw [hcs, encode_digits hdigits]
    rfl
  intro rest hrest bound h
  have h' : rest.length ≤ bound := by
    rw [List.length_append] at h
    omega
  unfold number
  by_cases hzero : n = 0
  · subst hzero
    rw [Nat.toDigits_zero] at hcs
    obtain ⟨rfl, rfl⟩ := List.cons.inj hcs
    simp only [List.map_nil, List.nil_append, if_pos, hrest.digitNext, Bool.false_eq_true, if_false,
      afterWhole_stops negative 0 hrest]
    exact ⟨h', rfl⟩
  · -- The first digit is no zero, so all digits are taken together.
    have hfirst : byte c ≠ byte '0' := by
      intro heq
      have hsame : c = '0' := by
        have hval := congrArg UInt8.toNat heq
        rw [toNat_byte_of_isDigit hc] at hval
        exact Char.ext (UInt32.toNat_inj.mp hval)
      have hhead := Decimal.head?_toDigits (Nat.pos_of_ne_zero hzero)
      rw [hcs, hsame] at hhead
      exact hhead rfl
    have hvalue : Nat.ofDigitChars 10 cs (digitValue (byte c)) = n := by
      have hall := Nat.ofDigitChars_ten_toDigits (n := n)
      rwa [hcs, Nat.ofDigitChars_cons, Nat.mul_zero, Nat.zero_add, ← digitValue_byte hc] at hall
    have hread := digits_append 0 (fun d hd => hdigits d (List.mem_cons_of_mem c hd))
      (hvalue ▸ hn) hrest h h'
    rw [if_neg hfirst, if_pos (isDigit_byte hc)]
    simp only [hread, hrest.digitNext, Bool.false_eq_true, if_false, hvalue,
      afterWhole_stops negative n hrest]
    exact ⟨h', rfl⟩

theorem ne_byte_of_isDigit {b : UInt8} (h : isDigit b = true) {c : Char}
    (hc : isDigit (byte c) = false) : b ≠ byte c := by
  rintro rfl
  rw [h] at hc
  cases hc

/-- **A printed integer is read back,** if it fits 64 bits with or without a sign. -/
theorem scalar?_toString {n : Int} (hlow : -0x8000000000000000 ≤ n)
    (hhigh : n < 0x10000000000000000) :
    ∃ b bs, Utf8.ofString (toString n) = b :: bs ∧ (b = byte '-' ∨ isDigit b = true) ∧
      ∀ rest, Stops rest → ∀ (bound : Nat) (h : (bs ++ rest).length ≤ bound),
        ∃ scan, scalar? b (bs ++ rest) h = some scan ∧ Gives scan (.integer n) rest := by
  by_cases hsign : 0 ≤ n
  · have hsize : n.toNat ≤ maxSignificand := by
      unfold maxSignificand
      omega
    obtain ⟨b, bs, hbytes, hb, hread⟩ := number_toDigits false hsize
    refine ⟨b, bs, ?_, Or.inr hb, ?_⟩
    · rw [Int.toString_eq_repr, Int.repr_eq_if, if_pos hsign, Utf8.ofString, Nat.toList_repr,
        hbytes]
    · intro rest hrest bound h
      refine ⟨number false b (bs ++ rest) h, ?_, ?_⟩
      · unfold scalar?
        rw [if_neg (ne_byte_of_isDigit hb (by decide)), if_neg (ne_byte_of_isDigit hb (by decide)),
          if_neg (ne_byte_of_isDigit hb (by decide)), if_neg (ne_byte_of_isDigit hb (by decide)),
          if_neg (ne_byte_of_isDigit hb (by decide)), if_pos hb]
      · have hwhole : whole false n.toNat = .integer n := by
          simp only [whole, Bool.not_false, if_true, Int.toNat_of_nonneg hsign]
        exact hwhole ▸ hread rest hrest bound h
  · have hsize : (-n).toNat ≤ maxSignificand := by
      unfold maxSignificand
      omega
    obtain ⟨b, bs, hbytes, hb, hread⟩ := number_toDigits true hsize
    refine ⟨byte '-', b :: bs, ?_, Or.inl rfl, ?_⟩
    · rw [Int.toString_eq_repr, Int.repr_eq_if, if_neg hsign, Utf8.ofString, String.toList_append,
        Utf8.encode_append, Nat.toList_repr, hbytes]
      rfl
    · intro rest hrest bound h
      refine ⟨negativeNumber (b :: bs ++ rest) h, rfl, ?_⟩
      have hwhole : whole true (-n).toNat = .integer n := by
        have hfits : ¬ ((-n).toNat = 0 ∨ 0x8000000000000000 < (-n).toNat) := by omega
        simp only [whole, Bool.not_true, Bool.false_eq_true, if_false, if_neg hfits]
        congr 1
        omega
      exact hwhole ▸ hread rest hrest bound (tail_le h)

end Integers

end LanguageServer.Json
