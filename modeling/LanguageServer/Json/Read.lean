import LanguageServer.Json.Number
import LanguageServer.Json.Text

/-! # Reading values

`value n` reads a value whose arrays and objects nest at most `n` deep; the values inside them are
read by `value (n - 1)`. Two loops serve both free values and records: `elements` reads what stands
between the brackets of an array and `members` what stands between the braces of an object, each
step handing one item to a reader that carries a state along. -/

namespace LanguageServer.Json

/-- The rest of a word of the language. -/
def literal (word : List UInt8) {bound : Nat} (bs : List UInt8) (h : bs.length ≤ bound) :
    Scan Unit bound :=
  match word, bs, h with
  | [], bs, h => .ok ⟨(), bs, h⟩
  | _ :: _, [], _ => failHere .endInValue []
  | w :: word, b :: rest, h =>
    if b = w then literal word rest (tail_le h) else failHere .expectedIdent rest

/-- The bytes of an ASCII word. -/
def bytesOf (word : String) : List UInt8 := word.toList.map byte

/-- A value without parts that starts with the byte `b`; none if no such value does. -/
def scalar? {bound : Nat} (b : UInt8) (rest : List UInt8) (h : rest.length ≤ bound) :
    Option (Scan Json bound) :=
  if b = byte 'n' then
    some ((literal (bytesOf "ull") rest h).map fun t => t.map fun _ => .null)
  else if b = byte 't' then
    some ((literal (bytesOf "rue") rest h).map fun t => t.map fun _ => .bool true)
  else if b = byte 'f' then
    some ((literal (bytesOf "alse") rest h).map fun t => t.map fun _ => .bool false)
  else if b = byte '"' then some ((stringText rest h).map fun t => t.map .string)
  else if b = byte '-' then some (negativeNumber rest h)
  else if isDigit b then some (number false b rest h)
  else none

/-! ### Arrays -/

section Elements

variable {σ : Type} (element : σ → Reader σ)

/-- The elements after the first, up to the closing bracket. -/
def moreElements (state : σ) {bound : Nat} (bs : List UInt8) (h : bs.length ≤ bound) :
    Scan σ bound :=
  match skipSpace bs, length_skipSpace_le bs with
  | [], _ => failNext .endInList []
  | b :: rest, hb =>
    if b = byte ']' then .ok ⟨state, rest, Nat.le_trans (tail_le hb) h⟩
    else if b = byte ',' then
      match skipSpace rest, length_skipSpace_le rest with
      | [], _ => failNext .endInValue []
      | c :: after, hc =>
        if c = byte ']' then failNext .trailingComma (c :: after)
        else
          match element state (c :: after) with
          | .error e => .error e
          | .ok t =>
            moreElements t.value t.rest
              (Nat.le_trans t.le_bound (Nat.le_trans hc (Nat.le_trans (tail_le hb) h)))
    else failNext .expectedListEnd (b :: rest)
termination_by bs.length
decreasing_by exact Nat.lt_of_le_of_lt (Nat.le_trans t.le_bound hc) hb

/-- The elements up to the closing bracket, after the opening one. -/
def elements (state : σ) {bound : Nat} (bs : List UInt8) (h : bs.length ≤ bound) : Scan σ bound :=
  match skipSpace bs, length_skipSpace_le bs with
  | [], _ => failNext .endInList []
  | b :: rest, hb =>
    if b = byte ']' then .ok ⟨state, rest, Nat.le_trans (tail_le hb) h⟩
    else
      match element state (b :: rest) with
      | .error e => .error e
      | .ok t => moreElements element t.value t.rest (Nat.le_trans t.le_bound (Nat.le_trans hb h))

end Elements

/-! ### Objects -/

section Members

variable {σ : Type} (member : σ → Reader σ)

/-- The members after the first, up to the closing brace. The reader of members starts after the
opening quote of a key. -/
def moreMembers (state : σ) {bound : Nat} (bs : List UInt8) (h : bs.length ≤ bound) :
    Scan σ bound :=
  match skipSpace bs, length_skipSpace_le bs with
  | [], _ => failNext .endInObject []
  | b :: rest, hb =>
    if b = byte '\x7d' then .ok ⟨state, rest, Nat.le_trans (tail_le hb) h⟩
    else if b = byte ',' then
      match skipSpace rest, length_skipSpace_le rest with
      | [], _ => failNext .endInValue []
      | c :: after, hc =>
        if c = byte '"' then
          match member state after with
          | .error e => .error e
          | .ok t =>
            moreMembers t.value t.rest
              (Nat.le_trans (Nat.le_trans t.le_bound (tail_le hc))
                (Nat.le_trans (tail_le hb) h))
        else if c = byte '\x7d' then failNext .trailingComma (c :: after)
        else failNext .keyNotString (c :: after)
    else failNext .expectedObjectEnd (b :: rest)
termination_by bs.length
decreasing_by
  exact Nat.lt_of_le_of_lt (Nat.le_trans t.le_bound (tail_le hc)) hb

/-- The members up to the closing brace, after the opening one. -/
def members (state : σ) {bound : Nat} (bs : List UInt8) (h : bs.length ≤ bound) : Scan σ bound :=
  match skipSpace bs, length_skipSpace_le bs with
  | [], _ => failNext .endInObject []
  | b :: rest, hb =>
    have h' : rest.length ≤ bound := Nat.le_trans (tail_le hb) h
    if b = byte '\x7d' then .ok ⟨state, rest, h'⟩
    else if b = byte '"' then
      match member state rest with
      | .error e => .error e
      | .ok t => moreMembers member t.value t.rest (Nat.le_trans t.le_bound h')
    else failNext .keyNotString (b :: rest)

/-- The colon after a key. -/
def colon {bound : Nat} (bs : List UInt8) (h : bs.length ≤ bound) : Scan Unit bound :=
  match skipSpace bs, length_skipSpace_le bs with
  | [], _ => failNext .endInObject []
  | b :: rest, hb =>
    if b = byte ':' then .ok ⟨(), rest, Nat.le_trans (tail_le hb) h⟩
    else failNext .expectedColon (b :: rest)

end Members

/-! ### Values -/

/-- Reads a value after those read before it, last first. -/
def nextElement (nested : Reader Json) (read : List Json) : Reader (List Json) :=
  fun bs => (nested bs).map fun t => t.map fun v => v :: read

/-- Reads a key, after its opening quote, and its value, and adds them to the members read
before. -/
def nextMember (nested : Reader Json) (read : List (String × Json)) :
    Reader (List (String × Json)) := fun bs =>
  match stringText bs (length_le_self _) with
  | .error e => .error e
  | .ok key =>
    match colon key.rest key.le_bound with
    | .error e => .error e
    | .ok mark =>
      (nested mark.rest).map fun t =>
        (t.map fun v => insert key.value v read).widen mark.le_bound

/-- A value; the values inside an array or an object are read by `nested`, and without it there may
be no array and no object. -/
def valueWith (nested : Option (Reader Json)) : Reader Json := fun bs =>
  match skipSpace bs, length_skipSpace_le bs with
  | [], _ => failNext .endInValue []
  | b :: rest, h =>
    have h' : rest.length ≤ bs.length := tail_le_length h
    if b = byte '[' then
      match nested with
      | none => failNext .nestedTooDeeply (b :: rest)
      | some nested =>
        (elements (nextElement nested) [] rest h').map fun t => t.map fun vs => .array vs.reverse
    else if b = byte '\x7b' then
      match nested with
      | none => failNext .nestedTooDeeply (b :: rest)
      | some nested => (members (nextMember nested) [] rest h').map fun t => t.map .object
    else
      match scalar? b rest h' with
      | some result => result
      | none => failNext .expectedValue (b :: rest)

/-- A value whose arrays and objects nest at most the given number of levels deep. -/
def value : Nat → Reader Json
  | 0 => valueWith none
  | depth + 1 => valueWith (some (value depth))

/-- The deepest nesting of arrays and objects in a text. -/
def maxDepth : Nat := 127

/-- What a reader makes of a whole text, after which only white space may come. -/
def decodeWith {α : Type} (reader : Reader α) (text : List UInt8) : Except DecodeError α :=
  match reader text with
  | .error e => .error (e.locate text)
  | .ok t =>
    match skipSpace t.rest with
    | [] => .ok t.value
    | b :: rest => .error (Failure.locate ⟨.trailingCharacters, b :: rest, .next⟩ text)

/-- The value that a text spells. -/
def decode (text : List UInt8) : Except DecodeError Json := decodeWith (value maxDepth) text

end LanguageServer.Json
