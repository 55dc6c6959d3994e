import LanguageServer.Json.Record
import LanguageServer.Proofs.Json.Value

/-! # Printed records are read back

A record is printed as an object whose members stand in any order, and those that are absent may be
left out. Each member goes to the field with its name, so the record that is read is made of what the
members, one after the other, write into the draft.

* `text_string`, `int32_integer`, `nullable_null`, `nullable_present`: readers of fields;
* `Record.feeds`: one member;
* `Record.reads_object`: records. -/

namespace LanguageServer.Json

open LanguageServer.Text

variable {α β : Type}

theorem ReadsAs.map {reader : Reader α} {v : Json} {a : α} (h : ReadsAs reader v a) (f : α → β) :
    ReadsAs (fun bs => (reader bs).map fun t => t.map f) v (f a) :=
  fun rest hrest => (h rest hrest).map f

/-! ### Readers of fields -/

theorem text_string (s : String) : ReadsAs text (.string s) s := by
  intro rest _
  rw [print, ofString_quote, List.cons_append, List.append_assoc]
  unfold text
  refine skipSpace_elim rfl fun hle => ?_
  exact stringText_encode s (tail_le_length hle)

theorem int32_integer (n : Int32) : ReadsAs int32 (.integer n.toInt) n := by
  have hlow := n.le_toInt
  have hhigh := n.toInt_lt
  obtain ⟨b, bs, hbytes, hb, hread⟩ := scalar?_toString (n := n.toInt) (by omega) (by omega)
  have hspace : isSpace b = false := by
    rcases hb with rfl | hb
    · rfl
    · exact isSpace_eq_false_of_isDigit hb
  have hnumber : (b = byte '-' || isDigit b) = true := by simpa using hb
  intro rest hrest
  rw [print, hbytes, List.cons_append]
  unfold int32
  refine skipSpace_elim hspace fun hle => ?_
  obtain ⟨scan, hscan, hgives, rfl⟩ := hread rest hrest _ (tail_le_length hle)
  simp only [hnumber, if_true, hscan]
  rw [if_pos ⟨by omega, by omega⟩, Int32.ofInt_toInt]
  exact ⟨_, rfl⟩

/-- The printed value starts neither with white space nor as null does. -/
def Present (v : Json) : Prop :=
  ∃ b bs, Utf8.ofString v.print = b :: bs ∧ isSpace b = false ∧ b ≠ byte 'n'

theorem present_object (ms : List (String × Json)) : Present (.object ms) :=
  ⟨_, _, ofString_object ms, rfl, by decide⟩

theorem Canonical.present {depth : Nat} {v : Json} (h : Canonical depth v) (hv : v ≠ .null) :
    Present v := by
  cases v with
  | null => exact absurd rfl hv
  | bool value => cases value <;> exact ⟨_, _, rfl, rfl, by decide⟩
  | integer n =>
    obtain ⟨hlow, hhigh⟩ := (canonical_integer depth n).mp h
    obtain ⟨b, bs, hbytes, rfl | hb, -⟩ := scalar?_toString hlow hhigh
    · exact ⟨_, _, hbytes, rfl, by decide⟩
    · exact ⟨_, _, hbytes, isSpace_eq_false_of_isDigit hb, ne_byte_of_isDigit hb (by decide)⟩
  | float x => cases depth <;> exact absurd h id
  | string s => exact ⟨_, _, ofString_quote s, rfl, by decide⟩
  | array vs => exact ⟨_, _, ofString_array vs, rfl, by decide⟩
  | object ms => exact present_object ms

theorem nullable_null (reader : Reader α) : ReadsAs (nullable reader) .null none := by
  intro rest _
  show Gives (nullable reader (byte 'n' :: (bytesOf "ull" ++ rest))) none rest
  unfold nullable
  refine skipSpace_elim rfl fun hle => ?_
  exact (literal_append (bytesOf "ull") (tail_le_length hle)).map fun _ => none

theorem nullable_present {reader : Reader α} {v : Json} {a : α} (hv : Present v)
    (h : ReadsAs reader v a) : ReadsAs (nullable reader) v (some a) := by
  obtain ⟨b, bs, hbytes, hspace, hb⟩ := hv
  intro rest hrest
  have hgives := h rest hrest
  rw [hbytes, List.cons_append] at hgives ⊢
  obtain ⟨_, hread⟩ := hgives
  unfold nullable
  refine skipSpace_elim hspace fun hle => ?_
  simp only [if_neg hb, hread]
  exact ⟨_, rfl⟩

/-! ### Records -/

namespace Record

variable {σ : Type} {r : Record σ α}

theorem feeds {name : String} {field : Field σ} {d next : σ} {v : Json}
    (hfield : (r.fields.find? fun f => f.name = name) = some field) (hnew : field.isSet d = false)
    (hread : ReadsAs (field.read d) v next) : Feeds r.member d (name, v) next := by
  intro rest hrest
  obtain ⟨hkey, hkeyText⟩ := key_memberBytes (name, v) rest
  obtain ⟨hmark, hcolon⟩ := colon_cons hkey
  obtain ⟨hvalue, hgives⟩ := hread rest hrest
  rw [member, hkeyText]
  simp only [hfield, hnew, Bool.false_eq_true, if_false, hcolon, hgives]
  exact ⟨_, rfl⟩

/-- **A printed record is read back,** if the members give a draft of it. -/
theorem reads_object {ms : List (String × Json)} {last : σ} {a : α}
    (hms : Gathers (Feeds r.member) r.start ms last) (hfinish : r.finish last = .ok a) :
    ReadsAs r.read (.object ms) a := by
  intro rest _
  rw [ofString_object, List.cons_append, List.append_assoc, List.singleton_append]
  unfold Record.read
  refine skipSpace_elim rfl fun hle => ?_
  obtain ⟨_, hread⟩ := members_gather hms (tail_le_length hle)
  simp only [if_neg (show byte '\x7b' ≠ byte '[' by decide), if_true, hread, settle, complete,
    hfinish]
  exact ⟨_, rfl⟩

end Record

end LanguageServer.Json
