import LanguageServer.Json.Mismatch

/-! # From values to typed data

A decoder makes typed data of a JSON value or says why it cannot. A record is given by its `Layout`:
the function that builds it and, one by one, its fields. It is read from an object, whose members
are tried in the order of their keys before anything missing is noticed, or from an array with the
fields in order. -/

namespace LanguageServer.Json

/-- Makes typed data of a value. -/
abbrev Decoder (α : Type) := Json → Except Mismatch α

namespace Decoder

variable {α : Type}

/-- A string. -/
def string : Decoder String
  | .string s => .ok s
  | v => .error (.type v.found "a string")

/-- A truth value. -/
def boolean : Decoder Bool
  | .bool b => .ok b
  | v => .error (.type v.found "a boolean")

/-- An integer from `low` up to, and not including, `high`. -/
def integer (low high : Int) (name : String) : Decoder Int
  | .integer n =>
    if low ≤ n ∧ n < high then .ok n else .error (.value (.integer n) name)
  | v => .error (.type v.found name)

/-- An integer of 32 bits without a sign. -/
def uint32 : Decoder UInt32 := fun v =>
  (integer 0 0x100000000 "u32" v).map fun n => n.toNat.toUInt32

/-- An integer of 32 bits with a sign. -/
def int32 : Decoder Int32 := fun v => (integer (-0x80000000) 0x80000000 "i32" v).map Int32.ofInt

/-- A value that may be null. -/
def nullable (decode : Decoder α) : Decoder (Option α)
  | .null => .ok none
  | v => (decode v).map some

/-- A list. -/
def list (decode : Decoder α) : Decoder (List α)
  | .array vs => vs.mapM decode
  | v => .error (.type v.found "a sequence")

/-- One of several kinds of value, tried in order. -/
def oneOf (name : String) (kinds : List (Decoder α)) : Decoder α := fun v =>
  match kinds.findSome? fun decode => (decode v).toOption with
  | some a => .ok a
  | none => .error (.variant name)

end Decoder

/-! ### Records -/

/-- The function that builds a record and the fields it takes, each with its name, its decoder, and
what it is if an object lacks it. -/
inductive Layout : Type → Type 1
  | build {α : Type} (value : α) : Layout α
  | field {α β : Type} (before : Layout (β → α)) (name : String) (decode : Decoder β)
    (absent : Option β) : Layout α

/-- How an array with too many elements is refused: by the number of elements there are, or by the
number there should be. -/
inductive Surplus
  | fewer
  | counted

/-- What the members of an object give: of those that do not fit the one with the least key, the
first field that is missing, and the record if no field is bad or missing. -/
structure Attempt (α : Type) where
  bad : Option (String × Mismatch)
  missing : Option String
  value : Option α

/-- The one of two bad members with the lesser key. -/
def firstBad (earlier : Option (String × Mismatch)) (later : String × Mismatch) :
    Option (String × Mismatch) :=
  match earlier with
  | some (key, cause) => if keyBefore key later.1 then some (key, cause) else some later
  | none => some later

namespace Layout

/-- The number of fields. -/
def size {α : Type} : Layout α → Nat
  | build _ => 0
  | field before .. => before.size + 1

/-- Reads the fields from the members of an object. -/
def tryMembers {α : Type} (members : List (String × Json)) : Layout α → Attempt α
  | build value => ⟨none, none, some value⟩
  | field before name decode absent =>
    let a := before.tryMembers members
    match members.lookup name with
    | some v =>
      match decode v with
      | .ok b => ⟨a.bad, a.missing, a.value.map fun f => f b⟩
      | .error cause => ⟨firstBad a.bad (name, cause), a.missing, none⟩
    | none =>
      match absent with
      | some b => ⟨a.bad, a.missing, a.value.map fun f => f b⟩
      | none => ⟨a.bad, a.missing.or (some name), none⟩

/-- The record that the members of an object give. -/
def ofMembers {α : Type} (layout : Layout α) (members : List (String × Json)) :
    Except Mismatch α :=
  match layout.tryMembers members with
  | ⟨some (_, cause), _, _⟩ => .error cause
  | ⟨none, some name, _⟩ => .error (.missing name)
  | ⟨none, none, some a⟩ => .ok a
  | ⟨none, none, none⟩ => .error (.missing "")

/-- Reads the fields from the front of an array: the record and the elements left. -/
def tryElements {α : Type} (expected : String) (vs : List Json) :
    Layout α → Except Mismatch (α × List Json)
  | build value => .ok (value, vs)
  | field before _ decode _ =>
    match before.tryElements expected vs with
    | .error e => .error e
    | .ok (_, []) => .error (.length vs.length expected)
    | .ok (f, v :: rest) => (decode v).map fun b => (f b, rest)

/-- The record that an array gives. -/
def ofElements {α : Type} (layout : Layout α) (name : String) (surplus : Surplus)
    (vs : List Json) : Except Mismatch α :=
  match layout.tryElements ("struct " ++ name ++ " with " ++ elementCount layout.size) vs with
  | .error e => .error e
  | .ok (a, []) => .ok a
  | .ok (_, _ :: _) =>
    .error (.length vs.length (match surplus with
      | .fewer => "fewer elements in array"
      | .counted => elementCount layout.size ++ " in sequence"))

/-- The record that an object or an array gives. -/
def decoder {α : Type} (layout : Layout α) (name : String) (surplus : Surplus) : Decoder α
  | .object members => layout.ofMembers members
  | .array vs => layout.ofElements name surplus vs
  | v => .error (.type v.found ("struct " ++ name))

end Layout

end LanguageServer.Json
