import LanguageServer.Proofs.Decimal.Notation
import LanguageServer.Proofs.Frame.Local

/-! # The grammar of messages

What a message is, said of its bytes and not through the reader: header lines, a blank line and a
body. `Framed bs content rest` says that the bytes begin with such a message, and `Broken bs error`
that they begin with none, and why. Every input is one of the two, or empty.

* `headerText_concat`: the line feed that ends a line does not count for its text;
* `readLength_eq_ok_iff`, `sound_or_offends`: the length that one line names;
* `HeadReads`: what the reader makes of a block of lines, one lemma for each way a block can go on
  or end, and `HeaderLines.reads` for the lines before that;
* `read_of_head`: from the block to the message;
* `framed_or_broken`: every input, line by line;
* `read_exact`: the reader gives a message exactly if there is one, and else the error that comes
  first. -/

namespace LanguageServer.Frame

open FramingError (maxBody)

/-! ### Lines -/

/-- A line with the line feed that ends it. -/
def Ended (l : List UInt8) : Prop := ∃ front, l = front ++ [10] ∧ 10 ∉ front

/-- A line before the bytes `after`: it ends with its line feed or, without one, with the input. -/
def LineBefore (l after : List UInt8) : Prop := Ended l ∨ l ≠ [] ∧ 10 ∉ l ∧ after = []

/-- What a line says of the length of the body: the text after the name of the header, without white
space around it. -/
def lengthText? (l : List UInt8) : Option (List Char) :=
  if lengthHeader.toList <+: headerText l then
    some (Text.trim ((headerText l).drop lengthHeader.toList.length))
  else none

/-- If the line has the length header, its value is an integer of 64 bits that is not negative. -/
def Sound (l : List UInt8) : Prop :=
  ∀ value, lengthText? l = some value → ∃ n : Nat, Decimal.Spells value n ∧ Decimal.Fits n

/-- The line has the length header with a value that is no integer of 64 bits, or a negative one. -/
inductive Offends (l : List UInt8) : FramingError → Prop
  | unparsable {value : List Char} {cause : Decimal.IntegerFault} :
      lengthText? l = some value → (∀ n, Decimal.Spells value n → ¬ Decimal.Fits n) →
      Decimal.readInteger value = .error cause →
      Offends l (.unparsableLength (String.ofList value) cause)
  | negative {value : List Char} {n : Int} :
      lengthText? l = some value → Decimal.Spells value n → Decimal.Fits n → n < 0 →
      Offends l (.negativeLength n)

/-- Header lines: all of them end, none is blank, and none offends. -/
structure HeaderLines (ls : List (List UInt8)) : Prop where
  ended : ∀ l ∈ ls, Ended l
  filled : ∀ l ∈ ls, headerText l ≠ []
  sound : ∀ l ∈ ls, Sound l

/-- The last length header among the lines names the length `n`. -/
def Announces (ls : List (List UInt8)) (n : Nat) : Prop :=
  ∃ value, (ls.filterMap lengthText?).getLast? = some value ∧ Decimal.Spells value n

/-! ### Messages -/

/-- **The bytes begin with a message:** header lines, a blank line, and as many bytes as the last
length header names. -/
inductive Framed : List UInt8 → List UInt8 → List UInt8 → Prop
  | message {ls : List (List UInt8)} {blank content rest : List UInt8} : HeaderLines ls →
      LineBefore blank (content ++ rest) → headerText blank = [] → Announces ls content.length →
      content.length ≤ maxBody → Framed (ls.flatten ++ (blank ++ (content ++ rest))) content rest

/-- **The bytes begin with no message,** for the first reason from the left. -/
inductive Broken : List UInt8 → FramingError → Prop
  /-- A line offends, whatever comes after it. -/
  | offended {ls : List (List UInt8)} {l after : List UInt8} {error : FramingError} :
      HeaderLines ls → LineBefore l after → Offends l error →
      Broken (ls.flatten ++ (l ++ after)) error
  /-- The input ends after a header line. -/
  | ended {ls : List (List UInt8)} : HeaderLines ls → ls ≠ [] →
      Broken ls.flatten (.read .headerEnded)
  /-- The input ends inside a header line. -/
  | cut {ls : List (List UInt8)} {tail : List UInt8} : HeaderLines ls → 10 ∉ tail →
      headerText tail ≠ [] → Sound tail → Broken (ls.flatten ++ tail) (.read .headerEnded)
  /-- No line before the blank one has the length header. -/
  | unannounced {ls : List (List UInt8)} {blank after : List UInt8} : HeaderLines ls →
      LineBefore blank after → headerText blank = [] → (∀ l ∈ ls, lengthText? l = none) →
      Broken (ls.flatten ++ (blank ++ after)) .missingLength
  /-- The length is too large, however many bytes follow. -/
  | tooLarge {ls : List (List UInt8)} {blank after : List UInt8} {n : Nat} : HeaderLines ls →
      LineBefore blank after → headerText blank = [] → Announces ls n → maxBody < n →
      Broken (ls.flatten ++ (blank ++ after)) (.tooLarge n)
  /-- Fewer bytes follow than the length names. -/
  | truncated {ls : List (List UInt8)} {blank after : List UInt8} {n : Nat} : HeaderLines ls →
      LineBefore blank after → headerText blank = [] → Announces ls n → n ≤ maxBody →
      after.length < n →
      Broken (ls.flatten ++ (blank ++ after)) (.truncated (.bodyEnded n after.length))

/-! ### One line -/

theorem inLine_of_notMem {l : List UInt8} (h : 10 ∉ l) : ∀ b ∈ l, inLine b = true := by
  intro b hb
  rw [inLine, bne_iff_ne]
  rintro rfl
  exact h hb

theorem headerText_nil : headerText [] = [] := by
  simp [headerText, Text.Utf8.decodeLossy, Text.Utf8.lossyFrom, Text.trim]

theorem headerText_concat (front : List UInt8) : headerText (front ++ [10]) = headerText front := by
  rw [headerText, headerText, Text.Utf8.decodeLossy_concat_ascii (by decide),
    Text.trim_concat _ (by decide)]

theorem Ended.ne_nil {l : List UInt8} (h : Ended l) : l ≠ [] := by
  obtain ⟨front, rfl, -⟩ := h
  simp

theorem LineBefore.ne_nil {l after : List UInt8} (h : LineBefore l after) : l ≠ [] := by
  rcases h with h | ⟨h, -, -⟩
  · exact h.ne_nil
  · exact h

theorem LineBefore.block_ne_nil {l after : List UInt8} (h : LineBefore l after)
    (ls : List (List UInt8)) : ls.flatten ++ (l ++ after) ≠ [] := by
  intro hnil
  exact h.ne_nil (List.append_eq_nil_iff.mp (List.append_eq_nil_iff.mp hnil).2).1

theorem readLength_eq_ok_iff {value : List Char} {n : Nat} :
    readLength value = .ok n ↔ Decimal.Spells value n ∧ Decimal.Fits n := by
  rw [← Decimal.readInteger_eq_ok_iff]
  unfold readLength
  cases hvalue : Decimal.readInteger value with
  | error cause => simp
  | ok m =>
    simp only [Except.ok.injEq]
    split_ifs with hneg
    · simp only [false_iff]
      omega
    · simp only [Except.ok.injEq]
      omega

theorem afterHeader_eq (known : Option Nat) (l : List UInt8) :
    afterHeader known (headerText l) =
      match lengthText? l with
      | none => .ok known
      | some value => (readLength value).map some := by
  unfold afterHeader lengthText?
  simp only [List.isPrefixOf_iff_prefix]
  split_ifs <;> rfl

theorem sound_or_offends (l : List UInt8) : Sound l ∨ ∃ error, Offends l error := by
  cases hvalue : lengthText? l with
  | none =>
    left
    intro value h
    rw [hvalue] at h
    cases h
  | some value =>
    cases hread : Decimal.readInteger value with
    | error cause =>
      refine Or.inr ⟨_, .unparsable hvalue (fun n hn hfits => ?_) hread⟩
      rw [Decimal.readInteger_eq_ok_iff.mpr ⟨hn, hfits⟩] at hread
      cases hread
    | ok n =>
      obtain ⟨hspells, hfits⟩ := Decimal.readInteger_eq_ok_iff.mp hread
      by_cases hneg : n < 0
      · exact Or.inr ⟨_, .negative hvalue hspells hfits hneg⟩
      · obtain ⟨k, rfl⟩ := Int.eq_ofNat_of_zero_le (Int.not_lt.mp hneg)
        left
        intro value' h
        rw [hvalue] at h
        cases h
        exact ⟨k, hspells, hfits⟩

theorem Offends.filled {l : List UInt8} {error : FramingError} (h : Offends l error) :
    headerText l ≠ [] := by
  have hsome : lengthText? l ≠ none := by
    cases h with
    | unparsable hvalue | negative hvalue => rw [hvalue]; exact nofun
  intro hblank
  refine hsome ?_
  rw [lengthText?, hblank, if_neg (by decide)]

theorem Offends.afterHeader {l : List UInt8} {error : FramingError} (h : Offends l error)
    (known : Option Nat) : Frame.afterHeader known (headerText l) = .error error := by
  rw [afterHeader_eq]
  cases h with
  | unparsable hvalue _ hread =>
    rw [hvalue]
    simp only [readLength, hread]
    rfl
  | negative hvalue hspells hfits hneg =>
    rw [hvalue]
    simp only [readLength, Decimal.readInteger_eq_ok_iff.mpr ⟨hspells, hfits⟩, if_pos hneg]
    rfl

theorem Sound.afterHeader {l : List UInt8} (h : Sound l) :
    lengthText? l = none ∧ (∀ known, Frame.afterHeader known (headerText l) = .ok known) ∨
      ∃ value n, lengthText? l = some value ∧ Decimal.Spells value (n : Nat) ∧
        ∀ known, Frame.afterHeader known (headerText l) = .ok (some n) := by
  cases hvalue : lengthText? l with
  | none =>
    refine Or.inl ⟨rfl, fun known => ?_⟩
    rw [afterHeader_eq, hvalue]
  | some value =>
    obtain ⟨n, hspells, hfits⟩ := h value hvalue
    refine Or.inr ⟨value, n, rfl, hspells, fun known => ?_⟩
    rw [afterHeader_eq, hvalue]
    simp only [readLength_eq_ok_iff.mpr ⟨hspells, hfits⟩]
    rfl

/-! ### Blocks of lines -/

/-- The header lines that the bytes begin with, after lines that gave the length `known`, are read
with this result. -/
def HeadReads (known : Option Nat) (bs : List UInt8)
    (result : Except FramingError (Option Nat × List UInt8)) : Prop :=
  ∀ ⦃bound : Nat⦄ (h : bs.length ≤ bound + 1), (headers none known bs h).map Taken.pair = result

section Blocks

variable {known next : Option Nat} {l rest : List UInt8} {error : FramingError}
  {result : Except FramingError (Option Nat × List UInt8)}

theorem Ended.headers (hl : Ended l) (known : Option Nat) {bound : Nat}
    (h : (l ++ rest).length ≤ bound + 1) :
    ∃ hrest : rest.length ≤ bound, Frame.headers none known (l ++ rest) h =
      if (headerText l).isEmpty then .ok ⟨known, rest, hrest⟩
      else
        match Frame.afterHeader known (headerText l) with
        | .error e => .error e
        | .ok next => Frame.headers none next rest (Nat.le_succ_of_le hrest) := by
  obtain ⟨front, rfl, hfront⟩ := hl
  simp only [List.append_assoc, List.singleton_append] at h ⊢
  have hrest : rest.length ≤ bound := by
    simp only [List.length_append, List.length_cons] at h
    omega
  refine ⟨hrest, ?_⟩
  rw [headerText_concat]
  exact headers_line_feed (inLine_of_notMem hfront) h hrest

theorem headers_open (hl : 10 ∉ l) {bound : Nat} (h : l.length ≤ bound + 1) :
    headers none known l h =
      if l.isEmpty then .error (.read .headerEnded)
      else if (headerText l).isEmpty then .ok ⟨known, [], Nat.zero_le _⟩
      else
        match afterHeader known (headerText l) with
        | .error e => .error e
        | .ok _ => .error (.read .headerEnded) := by
  have htake : l.takeWhile inLine = l := List.takeWhile_eq_self_iff.mpr (inLine_of_notMem hl)
  have hdrop : l.dropWhile inLine = [] := List.dropWhile_eq_nil_iff.mpr (inLine_of_notMem hl)
  rw [headers.eq_def]
  simp only [htake]
  split
  · next hcons =>
    rw [hdrop] at hcons
    cases hcons
  · rfl

theorem headReads_nil : HeadReads known [] (.error (.read .headerEnded)) := by
  intro bound h
  rw [headers_open List.not_mem_nil]
  rfl

theorem headReads_blank (hl : LineBefore l rest) (hblank : headerText l = []) :
    HeadReads known (l ++ rest) (.ok (known, rest)) := by
  intro bound h
  rcases hl with hl | ⟨hne, hopen, rfl⟩
  · obtain ⟨hrest, hheaders⟩ := hl.headers known h
    rw [hheaders, hblank]
    rfl
  · simp only [List.append_nil] at h ⊢
    rw [headers_open hopen, if_neg (by rwa [List.isEmpty_iff]), hblank]
    rfl

theorem headReads_offends (hl : LineBefore l rest) (hoffends : Offends l error) :
    HeadReads known (l ++ rest) (.error error) := by
  have hfilled : ¬ (headerText l).isEmpty = true := by
    rw [List.isEmpty_iff]
    exact hoffends.filled
  intro bound h
  rcases hl with hl | ⟨hne, hopen, rfl⟩
  · obtain ⟨hrest, hheaders⟩ := hl.headers known h
    rw [hheaders, if_neg hfilled, hoffends.afterHeader]
    rfl
  · simp only [List.append_nil] at h ⊢
    rw [headers_open hopen, if_neg (by rwa [List.isEmpty_iff]), if_neg hfilled,
      hoffends.afterHeader]
    rfl

theorem headReads_cut (hopen : 10 ∉ l) (hfilled : headerText l ≠ [])
    (hafter : afterHeader known (headerText l) = .ok next) :
    HeadReads known l (.error (.read .headerEnded)) := by
  have hne : l ≠ [] := by
    rintro rfl
    exact hfilled headerText_nil
  intro bound h
  rw [headers_open hopen, if_neg (by rwa [List.isEmpty_iff]), if_neg (by rwa [List.isEmpty_iff]),
    hafter]
  rfl

theorem headReads_line (hl : Ended l) (hfilled : headerText l ≠ [])
    (hafter : afterHeader known (headerText l) = .ok next) (hrest : HeadReads next rest result) :
    HeadReads known (l ++ rest) result := by
  intro bound h
  obtain ⟨hle, hheaders⟩ := hl.headers known h
  rw [hheaders, if_neg (by rwa [List.isEmpty_iff]), hafter]
  exact hrest _

end Blocks

theorem HeaderLines.tail {l : List UInt8} {ls : List (List UInt8)} (h : HeaderLines (l :: ls)) :
    HeaderLines ls where
  ended k hk := h.ended k (List.mem_cons_of_mem l hk)
  filled k hk := h.filled k (List.mem_cons_of_mem l hk)
  sound k hk := h.sound k (List.mem_cons_of_mem l hk)

theorem HeaderLines.cons {l : List UInt8} {ls : List (List UInt8)} (hended : Ended l)
    (hfilled : headerText l ≠ []) (hsound : Sound l) (h : HeaderLines ls) :
    HeaderLines (l :: ls) where
  ended := List.forall_mem_cons.mpr ⟨hended, h.ended⟩
  filled := List.forall_mem_cons.mpr ⟨hfilled, h.filled⟩
  sound := List.forall_mem_cons.mpr ⟨hsound, h.sound⟩

theorem headerLines_nil : HeaderLines [] := ⟨by simp, by simp, by simp⟩

/-- **Header lines are passed over,** and the last length header among them counts. -/
theorem HeaderLines.reads {ls : List (List UInt8)} (h : HeaderLines ls) (known : Option Nat) :
    ∃ next, (∀ ⦃tail result⦄, HeadReads next tail result →
        HeadReads known (ls.flatten ++ tail) result) ∧
      (ls.filterMap lengthText? = [] ∧ next = known ∨ ∃ n, Announces ls n ∧ next = some n) := by
  induction ls generalizing known with
  | nil => exact ⟨known, fun _ _ htail => htail, Or.inl ⟨rfl, rfl⟩⟩
  | cons l ls ih =>
    have hended : Ended l := h.ended l List.mem_cons_self
    have hfilled : headerText l ≠ [] := h.filled l List.mem_cons_self
    rcases (h.sound l List.mem_cons_self).afterHeader with
      ⟨hnone, hafter⟩ | ⟨value, n, hvalue, hspells, hafter⟩
    · obtain ⟨next, hreads, hnext⟩ := ih h.tail known
      refine ⟨next, fun tail result htail => ?_, ?_⟩
      · rw [List.flatten_cons, List.append_assoc]
        exact headReads_line hended hfilled (hafter known) (hreads htail)
      · unfold Announces
        rw [List.filterMap_cons_none hnone]
        exact hnext
    · obtain ⟨next, hreads, hnext⟩ := ih h.tail (some n)
      refine ⟨next, fun tail result htail => ?_, ?_⟩
      · rw [List.flatten_cons, List.append_assoc]
        exact headReads_line hended hfilled (hafter known) (hreads htail)
      · -- the length of this line counts unless a later line has one
        right
        unfold Announces
        rw [List.filterMap_cons_some hvalue]
        rcases hnext with ⟨hempty, rfl⟩ | ⟨m, ⟨later, hlater, hspells'⟩, rfl⟩
        · rw [hempty]
          exact ⟨n, ⟨value, rfl, hspells⟩, rfl⟩
        · refine ⟨m, ⟨later, ?_, hspells'⟩, rfl⟩
          rw [List.getLast?_cons, hlater]
          rfl

/-! ### From the block to the message -/

/-- What is read after a block that gave the length. -/
def bodyAfter : Option Nat × List UInt8 → Except FramingError (Option (List UInt8 × List UInt8))
  | (none, _) => .error .missingLength
  | (some size, rest) =>
    if maxBody < size then .error (.tooLarge size)
    else if rest.length < size then .error (.truncated (.bodyEnded size rest.length))
    else .ok (some (rest.take size, rest.drop size))

/-- **A message is what its block says.** -/
theorem read_of_head {bs : List UInt8} {result : Except FramingError (Option Nat × List UInt8)}
    (hne : bs ≠ []) (h : HeadReads none bs result) : read none bs = result.bind bodyAfter := by
  obtain ⟨b, bs, rfl⟩ := List.exists_cons_of_ne_nil hne
  have hhead := h (Nat.le_refl (bs.length + 1))
  rw [← hhead, read]
  unfold message
  split
  · next e hheaders =>
    rw [hheaders]
    rfl
  · next hheaders =>
    rw [hheaders]
    rfl
  · next size rest hrest hheaders =>
    rw [hheaders]
    show Except.map _ (if maxBody < size then _ else _) = bodyAfter (some size, rest)
    rw [bodyAfter]
    split_ifs with hlarge hshort
    · rfl
    · have htake : (rest.take size).length = rest.length := by
        rw [List.length_take]
        omega
      simp only [body, htake, if_pos hshort]
      rfl
    · have htake : (rest.take size).length = size := by
        rw [List.length_take]
        omega
      simp only [body, htake, Nat.lt_irrefl, if_false]
      rfl

theorem Announces.unique {ls : List (List UInt8)} {n m : Nat} (hn : Announces ls n)
    (hm : Announces ls m) : n = m := by
  obtain ⟨value, hvalue, hspells⟩ := hn
  obtain ⟨value', hvalue', hspells'⟩ := hm
  rw [hvalue] at hvalue'
  cases hvalue'
  exact Int.ofNat.inj (hspells.unique hspells')

/-- Header lines and a blank line, before bytes that do not belong to them. -/
theorem read_block {ls : List (List UInt8)} {blank after : List UInt8} (h : HeaderLines ls)
    (hline : LineBefore blank after) (hblank : headerText blank = []) :
    (∀ n, Announces ls n →
      read none (ls.flatten ++ (blank ++ after)) = bodyAfter (some n, after)) ∧
    ((∀ l ∈ ls, lengthText? l = none) →
      read none (ls.flatten ++ (blank ++ after)) = .error .missingLength) := by
  obtain ⟨next, hreads, hnext⟩ := h.reads none
  have hread := read_of_head (hline.block_ne_nil ls) (hreads (headReads_blank hline hblank))
  rcases hnext with ⟨hempty, rfl⟩ | ⟨m, hm, rfl⟩
  · refine ⟨fun n ⟨value, hvalue, _⟩ => ?_, fun _ => hread⟩
    rw [hempty] at hvalue
    cases hvalue
  · refine ⟨fun n hn => ?_, fun hnone => ?_⟩
    · rw [hn.unique hm]
      exact hread
    · obtain ⟨value, hvalue, -⟩ := hm
      rw [List.filterMap_eq_nil_iff.mpr hnone] at hvalue
      cases hvalue

theorem Framed.read {bs content rest : List UInt8} (h : Framed bs content rest) :
    Frame.read none bs = .ok (some (content, rest)) := by
  cases h with
  | message hlines hline hblank hannounces hsize =>
    rw [(read_block hlines hline hblank).1 _ hannounces, bodyAfter, if_neg (by omega),
      if_neg (by rw [List.length_append]; omega), List.take_left, List.drop_left]

theorem Broken.read {bs : List UInt8} {error : FramingError} (h : Broken bs error) :
    Frame.read none bs = .error error := by
  cases h with
  | @offended ls l after _ hlines hline hoffends =>
    obtain ⟨next, hreads, -⟩ := hlines.reads none
    exact read_of_head (hline.block_ne_nil ls) (hreads (headReads_offends hline hoffends))
  | ended hlines hne =>
    obtain ⟨next, hreads, -⟩ := hlines.reads none
    have hreads := hreads headReads_nil
    rw [List.append_nil] at hreads
    refine read_of_head ?_ hreads
    obtain ⟨l, ls, rfl⟩ := List.exists_cons_of_ne_nil hne
    rw [List.flatten_cons]
    intro hnil
    exact (hlines.ended l List.mem_cons_self).ne_nil (List.append_eq_nil_iff.mp hnil).1
  | @cut ls tail hlines hopen hfilled hsound =>
    obtain ⟨next, hreads, -⟩ := hlines.reads none
    have hne : ls.flatten ++ tail ≠ [] := by
      intro hnil
      refine hfilled ?_
      rw [(List.append_eq_nil_iff.mp hnil).2, headerText_nil]
    rcases hsound.afterHeader with ⟨-, hafter⟩ | ⟨-, n, -, -, hafter⟩
    · exact read_of_head hne (hreads (headReads_cut hopen hfilled (hafter next)))
    · exact read_of_head hne (hreads (headReads_cut hopen hfilled (hafter next)))
  | unannounced hlines hline hblank hnone => exact (read_block hlines hline hblank).2 hnone
  | tooLarge hlines hline hblank hannounces hlarge =>
    rw [(read_block hlines hline hblank).1 _ hannounces, bodyAfter, if_pos hlarge]
  | truncated hlines hline hblank hannounces hsize hshort =>
    rw [(read_block hlines hline hblank).1 _ hannounces, bodyAfter, if_neg (by omega),
      if_pos hshort]

/-! ### Every input -/

/-- The input, line by line: header lines up to its end, or up to a line that is blank, offends or
has no end. -/
theorem exists_headerLines (bs : List UInt8) :
    ∃ ls tail, bs = ls.flatten ++ tail ∧ HeaderLines ls ∧
      (tail = [] ∨ ∃ l after, tail = l ++ after ∧ LineBefore l after ∧
        (headerText l = [] ∨ (∃ error, Offends l error) ∨ 10 ∉ l ∧ Sound l)) := by
  by_cases hfeed : bs.dropWhile inLine = []
  · -- the input is one line without an end
    have hopen : 10 ∉ bs := by
      intro hmem
      have hinside : inLine 10 = true := List.dropWhile_eq_nil_iff.mp hfeed 10 hmem
      cases hinside
    refine ⟨[], bs, rfl, headerLines_nil, ?_⟩
    by_cases hne : bs = []
    · exact Or.inl hne
    · refine Or.inr ⟨bs, [], (List.append_nil bs).symm, Or.inr ⟨hne, hopen, rfl⟩, ?_⟩
      rcases sound_or_offends bs with hsound | hoffends
      · exact Or.inr (Or.inr ⟨hopen, hsound⟩)
      · exact Or.inr (Or.inl hoffends)
  · obtain ⟨front, rest, hbs, hfront⟩ := exists_line_feed hfeed
    have hended : Ended (front ++ [10]) := by
      refine ⟨front, rfl, fun hmem => ?_⟩
      have hinside : inLine 10 = true := hfront 10 hmem
      cases hinside
    have hsplit : bs = (front ++ [10]) ++ rest := by
      rw [hbs, List.append_assoc, List.singleton_append]
    by_cases hblank : headerText (front ++ [10]) = []
    · exact ⟨[], bs, rfl, headerLines_nil, Or.inr ⟨_, rest, hsplit, Or.inl hended, Or.inl hblank⟩⟩
    · rcases sound_or_offends (front ++ [10]) with hsound | hoffends
      · have hshorter : rest.length < bs.length := by
          rw [hbs, List.length_append, List.length_cons]
          omega
        obtain ⟨ls, tail, hrest, hlines, htail⟩ := exists_headerLines rest
        refine ⟨(front ++ [10]) :: ls, tail, ?_, .cons hended hblank hsound hlines, htail⟩
        rw [hsplit, hrest, List.flatten_cons, List.append_assoc (front ++ [10])]
      · exact ⟨[], bs, rfl, headerLines_nil,
          Or.inr ⟨_, rest, hsplit, Or.inl hended, Or.inr (Or.inl hoffends)⟩⟩
termination_by bs.length

/-- **Every input that is not empty begins with a message or is broken.** -/
theorem framed_or_broken {bs : List UInt8} (hne : bs ≠ []) :
    (∃ content rest, Framed bs content rest) ∨ ∃ error, Broken bs error := by
  obtain ⟨ls, tail, rfl, hlines, rfl | ⟨l, after, rfl, hline, hl⟩⟩ := exists_headerLines bs
  · rw [List.append_nil] at hne ⊢
    refine Or.inr ⟨_, .ended hlines ?_⟩
    rintro rfl
    exact hne rfl
  by_cases hblank : headerText l = []
  · -- the lines before the blank one name a length, or none does
    obtain ⟨-, -, ⟨hempty, -⟩ | ⟨n, hannounces, -⟩⟩ := hlines.reads none
    · exact Or.inr ⟨_, .unannounced hlines hline hblank (List.filterMap_eq_nil_iff.mp hempty)⟩
    by_cases hlarge : maxBody < n
    · exact Or.inr ⟨_, .tooLarge hlines hline hblank hannounces hlarge⟩
    by_cases hshort : after.length < n
    · exact Or.inr ⟨_, .truncated hlines hline hblank hannounces (Nat.le_of_not_lt hlarge) hshort⟩
    · left
      have hsize : (after.take n).length = n := by
        rw [List.length_take]
        omega
      have hwhole : after.take n ++ after.drop n = after := List.take_append_drop n after
      rw [← hwhole] at hline
      have hmessage := Framed.message hlines hline hblank (by rwa [hsize]) (by omega)
      rw [hwhole] at hmessage
      exact ⟨_, _, hmessage⟩
  · rcases hl with hl | ⟨error, hoffends⟩ | ⟨hopen, hsound⟩
    · exact absurd hl hblank
    · exact Or.inr ⟨error, .offended hlines hline hoffends⟩
    · have hafter : after = [] := by
        rcases hline with ⟨front, rfl, -⟩ | ⟨-, -, hafter⟩
        · exact absurd (by simp) hopen
        · exact hafter
      subst hafter
      rw [List.append_nil]
      exact Or.inr ⟨_, .cut hlines hopen hblank hsound⟩

/-- **The reader gives a message exactly if there is one.** It takes a message off the front of the
bytes if they begin with it, and leaves the rest; it finds the stream ended if there are no bytes;
and in all other cases it reports what breaks the message, the first cause from the left. -/
theorem read_exact (bs : List UInt8) :
    (∀ content rest, read none bs = .ok (some (content, rest)) ↔ Framed bs content rest) ∧
    (read none bs = .ok none ↔ bs = []) ∧
    ∀ error, read none bs = .error error ↔ Broken bs error := by
  refine ⟨fun content rest => ⟨fun h => ?_, Framed.read⟩, ⟨fun h => ?_, ?_⟩,
    fun error => ⟨fun h => ?_, Broken.read⟩⟩
  · have hne : bs ≠ [] := by
      rintro rfl
      cases h
    rcases framed_or_broken hne with ⟨content', rest', hframed⟩ | ⟨error, hbroken⟩
    · rw [hframed.read] at h
      cases h
      exact hframed
    · rw [hbroken.read] at h
      cases h
  · by_contra hne
    rcases framed_or_broken hne with ⟨content, rest, hframed⟩ | ⟨error, hbroken⟩
    · rw [hframed.read] at h
      cases h
    · rw [hbroken.read] at h
      cases h
  · rintro rfl
    rfl
  · have hne : bs ≠ [] := by
      rintro rfl
      cases h
    rcases framed_or_broken hne with ⟨content, rest, hframed⟩ | ⟨error', hbroken⟩
    · rw [hframed.read] at h
      cases h
    · rw [hbroken.read] at h
      cases h
      exact hbroken

end LanguageServer.Frame
