import LanguageServer.Proofs.Json.Lexical

/-! # What is passed over is a value

The scan that passes over a value keeps a stack of the arrays and objects that are open, where the
grammar nests. `Closes` says what the bytes still owe to such a stack: further items of the
innermost array or object and its end, then the same for those around it. Every step of the scan
pays a part of that.

* `leave_sound`: after an item;
* `enter_sound`, `skipFront_sound`: at the front of an item;
* `skipItem_sound`: an item and all that follows it. -/

namespace LanguageServer.Json

theorem Next.of_skipSpace {b : UInt8} {bs rest : List UInt8} (h : Next b bs rest)
    {start : List UInt8} (hspace : skipSpace start = bs) : Next b start rest := by
  obtain ⟨gap, hgap, rfl⟩ := h
  refine ⟨start.takeWhile isSpace ++ gap, List.forall_mem_append.mpr
    ⟨fun c hc => List.mem_takeWhile_imp hc, hgap⟩, ?_⟩
  rw [List.append_assoc, ← hspace, skipSpace, List.takeWhile_append_dropWhile]

theorem colon_sound {bound : Nat} {bs : List UInt8} {h : bs.length ≤ bound}
    {t : Taken UInt8 Unit bound} (hread : colon bs h = .ok t) : Next (byte ':') bs t.rest := by
  unfold colon at hread
  split at hread
  · cases hread
  · next b rest _ hspace _ =>
    split at hread
    · next hb =>
      cases hread
      subst hb
      exact next_of_skipSpace hspace
    · cases hread

/-! ### What is open -/

namespace Enclosure

/-- An item of the array or object. -/
def Item : Enclosure → List UInt8 → List UInt8 → Prop
  | list, bs, rest => ∃ tree, Value tree bs rest
  | object, bs, rest => ∃ m, Keyed Value m bs rest

/-- All items of the array or object, and its end. -/
def Inside : Enclosure → List UInt8 → List UInt8 → Prop
  | list, bs, rest => ∃ ts, Listed Value (byte ']') ts bs rest
  | object, bs, rest => ∃ ms, Listed (Keyed Value) (byte '\x7d') ms bs rest

/-- Further items of the array or object, and its end. -/
def Ends : Enclosure → List UInt8 → List UInt8 → Prop
  | list, bs, rest => ∃ ts, More Value (byte ']') ts bs rest
  | object, bs, rest => ∃ ms, More (Keyed Value) (byte '\x7d') ms bs rest

variable {e : Enclosure} {bs start middle rest : List UInt8}

theorem ends_of_closer (h : Next e.closer bs rest) : e.Ends bs rest := by
  cases e with
  | list => exact ⟨[], .done h⟩
  | object => exact ⟨[], .done h⟩

theorem Item.ends (hcomma : Next (byte ',') bs start) (hitem : e.Item start middle)
    (hends : e.Ends middle rest) : e.Ends bs rest := by
  cases e with
  | list =>
    obtain ⟨tree, hvalue⟩ := hitem
    obtain ⟨ts, hmore⟩ := hends
    exact ⟨tree :: ts, .next hcomma hvalue hmore⟩
  | object =>
    obtain ⟨m, hkeyed⟩ := hitem
    obtain ⟨ms, hmore⟩ := hends
    exact ⟨m :: ms, .next hcomma hkeyed hmore⟩

theorem inside_of_closer (h : Next e.closer bs rest) : e.Inside bs rest := by
  cases e with
  | list => exact ⟨[], .none h⟩
  | object => exact ⟨[], .none h⟩

theorem Item.inside (hspace : skipSpace bs = start) (hitem : e.Item start middle)
    (hends : e.Ends middle rest) : e.Inside bs rest := by
  cases e with
  | list =>
    obtain ⟨tree, hvalue⟩ := hitem
    obtain ⟨ts, hmore⟩ := hends
    exact ⟨tree :: ts, .some (hvalue.of_skipSpace hspace) hmore⟩
  | object =>
    obtain ⟨_, ⟨hquote, hkey, hcolon, hvalue⟩⟩ := hitem
    obtain ⟨ms, hmore⟩ := hends
    exact ⟨_, .some (.mk (hquote.of_skipSpace hspace) hkey hcolon hvalue) hmore⟩

end Enclosure

/-- All that is open is closed, the innermost first. -/
inductive Closes : List Enclosure → List UInt8 → List UInt8 → Prop
  | nil {rest : List UInt8} : Closes [] rest rest
  | cons {e : Enclosure} {outer : List Enclosure} {bs middle rest : List UInt8}
    (hends : e.Ends bs middle) (houter : Closes outer middle rest) : Closes (e :: outer) bs rest

/-- An item of what is open, or a value if nothing is. -/
def ItemIn : List Enclosure → List UInt8 → List UInt8 → Prop
  | [], bs, rest => ∃ tree, Value tree bs rest
  | e :: _, bs, rest => e.Item bs rest

/-- The next item of what is open, and all that follows it; nothing more if nothing is open. -/
def Resumes : List Enclosure → List UInt8 → List UInt8 → Prop
  | [], bs, rest => bs = rest
  | e :: outer, bs, rest => ∃ middle, e.Item bs middle ∧ Closes (e :: outer) middle rest

/-! ### Steps of the scan -/

theorem leave_sound {enclosing : List Enclosure} {bound : Nat} {bs : List UInt8}
    {h : bs.length ≤ bound} {t : Taken UInt8 (List Enclosure) bound}
    (hleave : leave enclosing bs h = .ok t) {rest : List UInt8}
    (hresumes : Resumes t.value t.rest rest) : Closes enclosing bs rest := by
  induction enclosing generalizing bs with
  | nil =>
    cases hleave
    obtain rfl : bs = rest := hresumes
    exact .nil
  | cons e outer ih =>
    rw [leave] at hleave
    split at hleave
    · cases hleave
    · next b after _ hspace _ =>
      split at hleave
      · next hcomma =>
        cases hleave
        subst hcomma
        obtain ⟨middle, hitem, hcloses⟩ := hresumes
        cases hcloses with
        | cons hends houter => exact .cons (hitem.ends (next_of_skipSpace hspace) hends) houter
      · split at hleave
        · next hcloser =>
          subst hcloser
          exact .cons (Enclosure.ends_of_closer (next_of_skipSpace hspace)) (ih hleave)
        · cases hleave

theorem enter_sound {enclosing : List Enclosure} {e : Enclosure} {bs : List UInt8}
    {t : Taken UInt8 (List Enclosure) bs.length} (henter : enter enclosing e bs = .ok t)
    {rest : List UInt8} (hresumes : Resumes t.value t.rest rest) :
    ∃ middle, e.Inside bs middle ∧ Closes enclosing middle rest := by
  unfold enter at henter
  split at henter
  · cases henter
  · next c after _ hspace _ =>
    split at henter
    · next hcloser =>
      subst hcloser
      exact ⟨after, Enclosure.inside_of_closer (next_of_skipSpace hspace),
        leave_sound henter hresumes⟩
    · cases henter
      obtain ⟨middle, hitem, hcloses⟩ := hresumes
      cases hcloses with
      | @cons _ _ _ last _ hends houter =>
        exact ⟨last, Enclosure.Item.inside hspace hitem hends, houter⟩

theorem skipFront_sound {enclosing : List Enclosure} {b : UInt8} {bs : List UInt8}
    {t : Taken UInt8 (List Enclosure) bs.length} (hskip : skipFront enclosing b bs = .ok t)
    {rest : List UInt8} (hresumes : Resumes t.value t.rest rest) :
    ∃ tree middle, Value tree (b :: bs) middle ∧ Closes enclosing middle rest := by
  unfold skipFront at hskip
  split at hskip
  · next hb =>
    obtain ⟨middle, ⟨ts, hlisted⟩, hcloses⟩ := enter_sound hskip hresumes
    subst hb
    exact ⟨_, middle, .array hlisted, hcloses⟩
  split at hskip
  · next hb =>
    obtain ⟨middle, ⟨ms, hlisted⟩, hcloses⟩ := enter_sound hskip hresumes
    subst hb
    exact ⟨_, middle, .object hlisted, hcloses⟩
  · split at hskip
    · cases hskip
    · next t hscalar =>
      obtain ⟨tree, hvalue⟩ := skipScalar_sound hscalar
      exact ⟨tree, t.rest, hvalue, leave_sound hskip hresumes⟩

theorem skipKey_sound {enclosing : List Enclosure} {bound : Nat} {bs : List UInt8}
    {h : bs.length ≤ bound} {t : Taken UInt8 Unit bound} (hskip : skipKey enclosing bs h = .ok t)
    {tree : Tree} {rest : List UInt8} (hvalue : Value tree t.rest rest) :
    ItemIn enclosing bs rest := by
  unfold skipKey at hskip
  split at hskip
  · split at hskip
    · cases hskip
    · next b after _ hspace _ =>
      split at hskip
      · next hquote =>
        split at hskip
        · cases hskip
        · next key hkey =>
          obtain ⟨ps, hchars⟩ := skipString_sound hkey
          subst hquote
          exact ⟨_, .mk (next_of_skipSpace hspace) hchars (colon_sound hskip) hvalue⟩
      · cases hskip
  · next hlist =>
    cases hskip
    match enclosing, hlist with
    | [], _ => exact ⟨tree, hvalue⟩
    | .list :: _, _ => exact ⟨tree, hvalue⟩
    | .object :: outer, hlist => exact absurd rfl (hlist outer)

/-- **What is passed over** is an item of what is open, and what closes all that is. -/
theorem skipItem_sound {enclosing : List Enclosure} {bound : Nat} {bs : List UInt8}
    {h : bs.length ≤ bound} {t : Taken UInt8 Unit bound}
    (hskip : skipItem enclosing bs h = .ok t) :
    ∃ middle, ItemIn enclosing bs middle ∧ Closes enclosing middle t.rest := by
  rw [skipItem] at hskip
  split at hskip
  · cases hskip
  · next key hkey =>
    split at hskip
    · cases hskip
    · next b after _ hspace hshort =>
      split at hskip
      · cases hskip
      · next front hfront =>
        have hshorter : front.rest.length < bs.length := by
          have hspaces := length_skipSpace_le key.rest
          have hfront := front.le_length
          have hkey := key.le_length
          rw [hspace, List.length_cons] at hspaces
          omega
        have hresumes : Resumes front.value front.rest t.rest := by
          simp only at hskip
          split at hskip
          · next hempty =>
            cases hskip
            rw [List.isEmpty_iff.mp hempty]
            rfl
          · next hopen =>
            obtain ⟨middle, hitem, hcloses⟩ := skipItem_sound hskip
            cases hvalue : front.value with
            | nil =>
              rw [hvalue] at hopen
              exact absurd rfl hopen
            | cons e outer =>
              rw [hvalue] at hitem hcloses
              exact ⟨middle, hitem, hcloses⟩
        obtain ⟨tree, middle, hvalue, hcloses⟩ := skipFront_sound hfront hresumes
        exact ⟨middle, skipKey_sound hkey (hvalue.of_skipSpace hspace), hcloses⟩
termination_by bs.length

theorem skipValue_sound {bs : List UInt8} {t : Taken UInt8 Unit bs.length}
    (hskip : skipValue bs = .ok t) : ∃ tree, Value tree bs t.rest := by
  obtain ⟨middle, hitem, hcloses⟩ := skipItem_sound hskip
  cases hcloses
  exact hitem

end LanguageServer.Json
