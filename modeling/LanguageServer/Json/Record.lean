import LanguageServer.Json.Skip

/-! # Reading records

A record is an object with known members, or an array of their values in order. Its fields are read
into a *draft*, from which `finish` makes the record. Unknown members are passed over, a member may
stand once, and what is missing is found at the end. A failure whose place is undecided is placed by
the innermost record around it, after its closing brace or bracket if that comes next. -/

namespace LanguageServer.Json

/-- A field of a record with drafts of type `σ`: whether a draft holds it already, how its value is
read into a draft, and whether an array may end before it. -/
structure Field (σ : Type) where
  name : String
  isSet : σ → Bool
  read : σ → Reader σ
  optional : Bool

/-- How a record of type `α` is read, by way of drafts of type `σ`: its fields in the order of an
array, the draft to begin with, and the record that a draft gives. -/
structure Record (σ α : Type) where
  name : String
  fields : List (Field σ)
  start : σ
  finish : σ → Except Mismatch α

/-- Fails with a place that the enclosing record decides. -/
def failUndecided {α : Type} (cause : Mismatch) (unread : List UInt8) : Except Failure α :=
  .error ⟨.mismatch cause, unread, .undecided⟩

/-! ### Scalars of a given type -/

/-- Complains about a value that is not the `expected` one. A value without parts is read first, and
what is wrong with it comes first too. -/
def refuse {α : Type} (expected : String) (b : UInt8) (rest : List UInt8) : Except Failure α :=
  let complain (found : Found) (unread : List UInt8) : Except Failure α :=
    failHere (.mismatch (.type found expected)) unread
  if b = byte '[' then complain .sequence (b :: rest)
  else if b = byte '\x7b' then complain .map (b :: rest)
  else
    match scalar? b rest (length_le_self _) with
    | none => failNext .expectedValue (b :: rest)
    | some (.error e) => .error e
    | some (.ok t) => complain t.value.found t.rest

/-- A string. -/
def text : Reader String := fun bs =>
  match skipSpace bs, length_skipSpace_le bs with
  | [], _ => failNext .endInValue []
  | b :: rest, h =>
    if b = byte '"' then stringText rest (tail_le_length h) else refuse "a string" b rest

/-- An integer of 32 bits. -/
def int32 : Reader Int32 := fun bs =>
  match skipSpace bs, length_skipSpace_le bs with
  | [], _ => failNext .endInValue []
  | b :: rest, h =>
    if b = byte '-' || isDigit b then
      match scalar? b rest (tail_le_length h) with
      | some (.ok ⟨.integer n, rest, h⟩) =>
        if -0x80000000 ≤ n ∧ n < 0x80000000 then .ok ⟨Int32.ofInt n, rest, h⟩
        else failHere (.mismatch (.value (.integer n) "i32")) rest
      | some (.error e) => .error e
      | _ => refuse "i32" b rest
    else refuse "i32" b rest

/-- A value that may be null. -/
def nullable {α : Type} (reader : Reader α) : Reader (Option α) := fun bs =>
  match skipSpace bs, length_skipSpace_le bs with
  | [], _ => failNext .endInValue []
  | b :: rest, h =>
    if b = byte 'n' then
      (literal (bytesOf "ull") rest (tail_le_length h)).map fun t => t.map fun _ => none
    else (reader (b :: rest)).map fun t => (t.map some).widen h

/-! ### Records -/

namespace Record

variable {σ α : Type}

/-- The bytes after the white space and the closing brace at the front. -/
def closeObject (bs : List UInt8) : List UInt8 :=
  match skipSpace bs with
  | b :: rest => if b = byte '\x7d' then rest else b :: rest
  | [] => []

/-- The bytes after the white space and the closing bracket or the comma at the front. -/
def closeArray (bs : List UInt8) : List UInt8 :=
  match skipSpace bs with
  | b :: rest =>
    if b = byte ']' then rest else if b = byte ',' then skipSpace rest else b :: rest
  | [] => []

/-- Places an undecided failure where `close` gets to. -/
def settle {β : Type} (close : List UInt8 → List UInt8) (result : Except Failure β) :
    Except Failure β :=
  match result with
  | .error ⟨fault, unread, .undecided⟩ => failHere fault (close unread)
  | result => result

/-- Reads a member, after the opening quote of its key. -/
def member (r : Record σ α) (draft : σ) : Reader σ := fun bs =>
  match stringText bs (length_le_self _) with
  | .error e => .error e
  | .ok key =>
    match r.fields.find? fun f => f.name = key.value with
    | none =>
      match colon key.rest key.le_length with
      | .error e => .error e
      | .ok mark => (skipValue mark.rest).map fun t => (t.map fun _ => draft).widen mark.le_length
    | some field =>
      if field.isSet draft then failUndecided (.duplicate key.value) key.rest
      else
        match colon key.rest key.le_length with
        | .error e => .error e
        | .ok mark => (field.read draft mark.rest).map fun t => t.widen mark.le_length

/-- The end of an array with all fields read. -/
def endArray {bound : Nat} (draft : σ) (bs : List UInt8) (h : bs.length ≤ bound) : Scan σ bound :=
  match skipSpace bs, skipSpace_le h with
  | [], _ => failNext .endInList []
  | b :: rest, h =>
    if b = byte ']' then .ok ⟨draft, rest, tail_le h⟩
    else if b = byte ',' then
      match skipSpace rest with
      | c :: after =>
        failNext (if c = byte ']' then .trailingComma else .trailingCharacters) (c :: after)
      | [] => failNext .trailingCharacters []
    else failNext .trailingCharacters (b :: rest)

/-- Reads the fields from an array, after its opening bracket: `count` are read. -/
def elements (r : Record σ α) (draft : σ) (count : Nat) {bound : Nat} (left : List (Field σ))
    (bs : List UInt8) (h : bs.length ≤ bound) : Scan σ bound :=
  match left with
  | [] => endArray draft bs h
  | field :: left =>
    let next (bs' : List UInt8) (h' : bs'.length ≤ bound) : Scan σ bound :=
      match field.read draft bs' with
      | .error e => .error e
      | .ok t => r.elements t.value (count + 1) left t.rest (t.rest_le h')
    match skipSpace bs, skipSpace_le h with
    | [], _ => failNext .endInList []
    | b :: rest, h =>
      if b = byte ']' then
        if field.optional then r.elements draft (count + 1) left (b :: rest) h
        else
          failUndecided
            (.length count ("struct " ++ r.name ++ " with " ++ elementCount r.fields.length))
            (b :: rest)
      else if count = 0 then next (b :: rest) h
      else if b = byte ',' then
        have h' : rest.length ≤ bound := tail_le h
        match skipSpace rest, skipSpace_le h' with
        | [], _ => failNext .endInValue []
        | c :: after, h =>
          if c = byte ']' then failNext .trailingComma (c :: after) else next (c :: after) h
      else failNext .expectedListEnd (b :: rest)

/-- Makes the record of the draft read before the bytes left. -/
def complete (r : Record σ α) {bound : Nat} (t : Taken UInt8 σ bound) : Scan α bound :=
  match r.finish t.value with
  | .ok a => .ok (t.map fun _ => a)
  | .error cause => failHere (.mismatch cause) t.rest

/-- **A record,** as an object or as an array. -/
def read (r : Record σ α) : Reader α := fun bs =>
  match skipSpace bs, length_skipSpace_le bs with
  | [], _ => failNext .endInValue []
  | b :: rest, h =>
    have h' : rest.length ≤ bs.length := tail_le_length h
    if b = byte '[' then
      match settle closeArray (r.elements r.start 0 r.fields rest h') with
      | .error e => .error e
      | .ok t => r.complete t
    else if b = byte '\x7b' then
      match settle closeObject (members r.member r.start rest h') with
      | .error e => .error e
      | .ok t => r.complete t
    else refuse ("struct " ++ r.name) b rest

end Record

end LanguageServer.Json
