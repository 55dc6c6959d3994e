import LanguageServer.Proofs.Frame.Stream
import Mathlib.Data.List.TakeWhile

/-! # Reading does not look ahead

What is read off the front of a stream does not depend on the bytes after it: the same message is
read whatever comes next. There is one exception. A stream may end inside the blank line that ends a
header block, and the line then counts as blank although further bytes could fill it; but such a
message has no body and nothing follows it.

* `headers_local`, `read_local`: one header block and one message;
* `Delivers`: the messages that successive readings return, and the bytes they leave;
* `Delivers.local`: a list of messages. -/

namespace LanguageServer.Frame

open FramingError (maxBody)

/-! ### Header blocks -/

section Headers

variable {length : Option Nat} {rest : List UInt8}

theorem exists_line_feed {bs : List UInt8} (h : bs.dropWhile inLine ≠ []) :
    ∃ line rest, bs = line ++ 10 :: rest ∧ ∀ b ∈ line, inLine b = true := by
  obtain ⟨b, rest, hdrop⟩ := List.exists_cons_of_ne_nil h
  have hstop : inLine b = false := by
    have hhead := List.head?_dropWhile_not inLine bs
    rw [hdrop] at hhead
    simpa using hhead
  obtain rfl : b = 10 := by simpa [inLine] using hstop
  refine ⟨bs.takeWhile inLine, rest, ?_, fun b hb => List.mem_takeWhile_imp hb⟩
  rw [← hdrop, List.takeWhile_append_dropWhile]

theorem rest_eq_nil_of_no_line_feed {bound : Nat} {bs : List UInt8} {size : Option Nat}
    {h : bs.length ≤ bound + 1} {hrest : rest.length ≤ bound} (hbs : bs.dropWhile inLine = [])
    (hread : headers none length bs h = .ok ⟨size, rest, hrest⟩) : rest = [] := by
  rw [headers.eq_def] at hread
  simp only at hread
  split at hread
  · next hdrop =>
    rw [hbs] at hdrop
    cases hdrop
  · split_ifs at hread
    · cases hread
      rfl
    · split at hread
      · cases hread
      · cases hread

/-- **A header block is read the same whatever follows it,** unless nothing does. -/
theorem headers_local {known size : Option Nat} {bound : Nat} {bs : List UInt8}
    {h : bs.length ≤ bound + 1} {hrest : rest.length ≤ bound}
    (hread : headers none known bs h = .ok ⟨size, rest, hrest⟩) (hne : rest ≠ []) :
    ∃ used, bs = used ++ rest ∧ used ≠ [] ∧
      ∀ (other : List UInt8) (limit : Nat) (h' : (used ++ other).length ≤ limit + 1),
        ∃ hother : other.length ≤ limit,
          headers none known (used ++ other) h' = .ok ⟨size, other, hother⟩ := by
  have hfeed : bs.dropWhile inLine ≠ [] := fun hnone =>
    hne (rest_eq_nil_of_no_line_feed hnone hread)
  obtain ⟨line, tail, rfl, hline⟩ := exists_line_feed hfeed
  have htail : tail.length ≤ bound := by
    simp only [List.length_append, List.length_cons] at h
    omega
  rw [headers_line_feed hline h htail] at hread
  by_cases hblank : (headerText line).isEmpty
  · -- the block ends here, and what follows is the rest
    rw [if_pos hblank] at hread
    cases hread
    refine ⟨line ++ [10], by simp, by simp, fun other limit h' => ?_⟩
    have hother : other.length ≤ limit := by
      simp only [List.length_append, List.length_cons, List.length_nil] at h'
      omega
    refine ⟨hother, ?_⟩
    simp only [List.append_assoc, List.cons_append, List.nil_append]
    rw [headers_line_feed hline _ hother, if_pos hblank]
  · rw [if_neg hblank] at hread
    cases hknown : afterHeader known (headerText line) with
    | error e =>
      rw [hknown] at hread
      cases hread
    | ok next =>
      simp only [hknown] at hread
      have hless : tail.length < (line ++ 10 :: tail).length := by
        simp only [List.length_append, List.length_cons]
        omega
      obtain ⟨used, rfl, -, hused⟩ := headers_local hread hne
      refine ⟨line ++ 10 :: used, by simp, by simp, fun other limit h' => ?_⟩
      have hlimit : (used ++ other).length ≤ limit := by
        simp only [List.length_append, List.length_cons] at h' ⊢
        omega
      obtain ⟨hother, hsame⟩ := hused other limit (Nat.le_succ_of_le hlimit)
      refine ⟨hother, ?_⟩
      simp only [List.append_assoc, List.cons_append]
      rw [headers_line_feed hline _ hlimit, if_neg hblank, hknown]
      exact hsame
termination_by bs.length

end Headers

/-! ### Messages -/

theorem body_eq_ok {size bound : Nat} {bs : List UInt8} {h : bs.length ≤ bound}
    {t : Taken UInt8 (List UInt8) bound} (hbody : body none size bs h = .ok t) :
    bs = t.value ++ t.rest ∧ t.value.length = size := by
  unfold body at hbody
  by_cases hshort : (bs.take size).length < size
  · rw [if_pos hshort] at hbody
    cases hbody
  · rw [if_neg hshort] at hbody
    cases hbody
    refine ⟨(List.take_append_drop size bs).symm, ?_⟩
    exact Nat.le_antisymm (List.length_take_le size bs) (Nat.le_of_not_lt hshort)

/-- **A message is read the same whatever follows it,** unless it is empty and nothing does. -/
theorem read_local {bs content rest : List UInt8}
    (hread : read none bs = .ok (some (content, rest))) (hne : content ≠ [] ∨ rest ≠ []) :
    ∃ used, bs = used ++ rest ∧
      ∀ other, read none (used ++ other) = .ok (some (content, other)) := by
  obtain ⟨b, bs, rfl⟩ : ∃ b tail, bs = b :: tail := by
    cases bs with
    | nil => cases hread
    | cons b tail => exact ⟨b, tail, rfl⟩
  obtain ⟨t, hmessage, hpair⟩ : ∃ t, message none b bs = .ok t ∧ t.pair = (content, rest) := by
    rw [read] at hread
    cases hmessage : message none b bs with
    | error e => rw [hmessage] at hread; cases hread
    | ok t => rw [hmessage] at hread; cases hread; exact ⟨t, rfl, rfl⟩
  obtain ⟨hcontent, hrest⟩ : t.value = content ∧ t.rest = rest := Prod.mk.inj hpair
  rw [message] at hmessage
  split at hmessage
  · cases hmessage
  · cases hmessage
  · next size after hafter hheaders =>
    by_cases hlarge : maxBody < size
    · rw [if_pos hlarge] at hmessage
      cases hmessage
    · rw [if_neg hlarge] at hmessage
      obtain ⟨hsplit, hsize⟩ := body_eq_ok hmessage
      rw [hcontent, hrest] at hsplit
      rw [hcontent] at hsize
      have hafter_ne : after ≠ [] := by
        rw [hsplit]
        rcases hne with hne | hne <;> simp [hne]
      obtain ⟨used, hused, hused_ne, hlocal⟩ := headers_local hheaders hafter_ne
      refine ⟨used ++ content, by rw [hused, hsplit, List.append_assoc], fun other => ?_⟩
      obtain ⟨c, cs, rfl⟩ := List.exists_cons_of_ne_nil hused_ne
      obtain ⟨hother, hsame⟩ := hlocal (content ++ other) (cs ++ content ++ other).length (by simp)
      have hstream : c :: cs ++ content ++ other = c :: (cs ++ content ++ other) := rfl
      have hblock : headers none none (c :: (cs ++ content ++ other)) (Nat.le_refl _) =
          .ok ⟨some size, content ++ other, hother⟩ := by
        simpa only [List.append_assoc, List.cons_append] using hsame
      rw [hstream, read, message, hblock]
      simp only [if_neg hlarge]
      subst hsize
      rw [body_append]
      rfl

theorem length_rest_lt {bs content rest : List UInt8}
    (hread : read none bs = .ok (some (content, rest))) : rest.length < bs.length := by
  cases bs with
  | nil => cases hread
  | cons b bs =>
    rw [read] at hread
    cases hmessage : message none b bs with
    | error e => rw [hmessage] at hread; cases hread
    | ok t =>
      rw [hmessage] at hread
      cases hread
      exact Nat.lt_succ_of_le t.le_bound

/-! ### Lists of messages -/

/-- Successive readings return the bodies, one after the other, and leave the rest. -/
inductive Delivers : List UInt8 → List (List UInt8) → List UInt8 → Prop
  | nil {bs : List UInt8} : Delivers bs [] bs
  | cons {bs middle rest body : List UInt8} {bodies : List (List UInt8)}
    (hfirst : read none bs = .ok (some (body, middle))) (hrest : Delivers middle bodies rest) :
    Delivers bs (body :: bodies) rest

theorem Delivers.ne_nil {bs rest body : List UInt8} {bodies : List (List UInt8)}
    (h : Delivers bs (body :: bodies) rest) : bs ≠ [] := by
  rintro rfl
  cases h with
  | cons hfirst _ => cases hfirst

/-- **The first of all messages are delivered,** and the others are the messages of the rest. -/
theorem delivers_of_readAll {bs : List UInt8} {before after : List (List UInt8)}
    (h : (readAll none bs).1 = before ++ after) :
    ∃ rest, Delivers bs before rest ∧ readAll none rest = (after, (readAll none bs).2) := by
  induction before generalizing bs with
  | nil => exact ⟨bs, .nil, Prod.ext h rfl⟩
  | cons body before ih =>
    rw [Frame.readAll_eq] at h ⊢
    cases hread : read none bs with
    | error e => rw [hread] at h; cases h
    | ok next =>
      cases next with
      | none => rw [hread] at h; cases h
      | some next =>
        obtain ⟨content, middle⟩ := next
        rw [hread] at h
        obtain ⟨rfl, htail⟩ := List.cons.inj h
        obtain ⟨rest, hdelivers, hall⟩ := ih htail
        exact ⟨rest, .cons hread hdelivers, hall⟩

/-- **Messages are read the same whatever follows them,** if the last is not empty. -/
theorem Delivers.local {bs rest last : List UInt8} {bodies : List (List UInt8)}
    (h : Delivers bs (bodies ++ [last]) rest) (hlast : last ≠ []) :
    ∃ used, bs = used ++ rest ∧ ∀ other, Delivers (used ++ other) (bodies ++ [last]) other := by
  induction bodies generalizing bs with
  | nil =>
    cases h with
    | cons hfirst hrest =>
      cases hrest
      obtain ⟨used, rfl, hused⟩ := read_local hfirst (Or.inl hlast)
      exact ⟨used, rfl, fun other => .cons (hused other) .nil⟩
  | cons body bodies ih =>
    cases h with
    | @cons _ middle _ _ _ hfirst hrest =>
      -- something follows the first message, since another one does
      have hmiddle : middle ≠ [] := by
        cases bodies with
        | nil => exact hrest.ne_nil
        | cons body bodies => exact hrest.ne_nil
      obtain ⟨front, rfl, hfront⟩ := read_local hfirst (Or.inr hmiddle)
      obtain ⟨used, rfl, hused⟩ := ih hrest
      refine ⟨front ++ used, by rw [List.append_assoc], fun other => ?_⟩
      rw [List.append_assoc]
      exact .cons (hfront _) (hused other)

end LanguageServer.Frame
