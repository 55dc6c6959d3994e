import LanguageServer.Json.Read

/-! # Skipping values

A value that nobody asks for is passed over without being built. The scan keeps the brackets and
braces that are open on a stack, so it has no limit of depth; it checks the grammar but neither the
encoding of strings nor the size of numbers. -/

namespace LanguageServer.Json

/-- What an item stands in. -/
inductive Enclosure
  | list
  | object
  deriving DecidableEq, Repr

namespace Enclosure

/-- The byte that closes it. -/
def closer : Enclosure → UInt8
  | list => byte ']'
  | object => byte '\x7d'

/-- The text ends inside it. -/
def ended : Enclosure → Fault
  | list => .endInList
  | object => .endInObject

/-- Something other than a comma or the end follows an item of it. -/
def unclosed : Enclosure → Fault
  | list => .expectedListEnd
  | object => .expectedObjectEnd

end Enclosure

/-! ### Values without parts -/

/-- The digits of an exponent. -/
def skipExponentDigits {bound : Nat} (bs : List UInt8) (h : bs.length ≤ bound) : Scan Unit bound :=
  match bs, h with
  | [], _ => failHere .invalidNumber []
  | b :: rest, h =>
    if isDigit b then .ok ((dropDigits rest (tail_le h)).map fun _ => ())
    else failHere .invalidNumber rest

/-- The sign and the digits of an exponent, after the letter that announces it. -/
def skipExponent {bound : Nat} (bs : List UInt8) (h : bs.length ≤ bound) : Scan Unit bound :=
  match bs, h with
  | b :: rest, h =>
    if b = byte '+' || b = byte '-' then skipExponentDigits rest (tail_le h)
    else skipExponentDigits (b :: rest) h
  | [], h => skipExponentDigits [] h

/-- An exponent or nothing. -/
def skipFloatEnd {bound : Nat} (bs : List UInt8) (h : bs.length ≤ bound) : Scan Unit bound :=
  match exponentNext? bs h with
  | some after => skipExponent after.rest after.le_bound
  | none => .ok ⟨(), bs, h⟩

/-- What may follow the digits before the point. -/
def skipAfterWhole {bound : Nat} (bs : List UInt8) (h : bs.length ≤ bound) : Scan Unit bound :=
  match bs, h with
  | b :: rest, h =>
    if b = byte '.' then
      let fraction := dropDigits rest (tail_le h)
      if fraction.value = 0 then failNext .invalidNumber fraction.rest
      else skipFloatEnd fraction.rest fraction.le_bound
    else skipFloatEnd (b :: rest) h
  | [], h => .ok ⟨(), [], h⟩

/-- A number that starts with the byte `b`, its sign apart. -/
def skipNumber {bound : Nat} (b : UInt8) (rest : List UInt8) (h : rest.length ≤ bound) :
    Scan Unit bound :=
  if b = byte '0' then
    if digitNext rest then failNext .invalidNumber rest else skipAfterWhole rest h
  else if isDigit b then
    let after := dropDigits rest h
    skipAfterWhole after.rest after.le_bound
  else failHere .invalidNumber rest

/-- A number after its minus sign. -/
def skipNegativeNumber {bound : Nat} (bs : List UInt8) (h : bs.length ≤ bound) :
    Scan Unit bound :=
  match bs, h with
  | [], _ => failHere .invalidNumber []
  | b :: rest, h => skipNumber b rest (tail_le h)

/-- An escaped character, after the backslash. -/
def skipEscape {bound : Nat} (bs : List UInt8) (h : bs.length ≤ bound) : Scan Unit bound :=
  match bs, h with
  | [], _ => failHere .endInString []
  | b :: rest, h =>
    have h' : rest.length ≤ bound := tail_le h
    if b = byte 'u' then (hexEscape rest h').map fun t => t.map fun _ => ()
    else if (escapeByte? b).isSome then .ok ⟨(), rest, h'⟩
    else failHere .invalidEscape rest

/-- A string, after its opening quote. -/
def skipString {bound : Nat} (bs : List UInt8) (h : bs.length ≤ bound) : Scan Unit bound :=
  match bs, h with
  | [], _ => failHere .endInString []
  | b :: rest, h =>
    if b = byte '"' then .ok ⟨(), rest, tail_le h⟩
    else if b = byte '\\' then
      match skipEscape rest (length_le_self _) with
      | .error e => .error e
      | .ok t => skipString t.rest (Nat.le_trans t.le_bound (tail_le h))
    else if b < 0x20 then failHere .controlCharacter (b :: rest)
    else skipString rest (tail_le h)
termination_by bs.length
decreasing_by
  · exact Nat.lt_succ_of_le t.le_bound
  · exact Nat.lt_succ_self _

/-- A value without parts that starts with the byte `b`. -/
def skipScalar {bound : Nat} (b : UInt8) (rest : List UInt8) (h : rest.length ≤ bound) :
    Scan Unit bound :=
  if b = byte 'n' then literal (bytesOf "ull") rest h
  else if b = byte 't' then literal (bytesOf "rue") rest h
  else if b = byte 'f' then literal (bytesOf "alse") rest h
  else if b = byte '"' then skipString rest h
  else if b = byte '-' then skipNegativeNumber rest h
  else if isDigit b then skipNumber b rest h
  else failNext .expectedValue (b :: rest)

/-! ### All values -/

/-- Leaves an item: closes what ends here and passes the comma before the next item. The result is
what stays open, empty if all is closed. -/
def leave (enclosing : List Enclosure) {bound : Nat} (bs : List UInt8) (h : bs.length ≤ bound) :
    Scan (List Enclosure) bound :=
  match enclosing with
  | [] => .ok ⟨[], bs, h⟩
  | e :: outer =>
    match skipSpace bs, skipSpace_le h with
    | [], _ => failNext e.ended []
    | b :: rest, h =>
      if b = byte ',' then .ok ⟨e :: outer, rest, tail_le h⟩
      else if b = e.closer then leave outer rest (tail_le h)
      else failNext e.unclosed (b :: rest)

/-- The key and the colon before the value of a member, in an object. -/
def skipKey (enclosing : List Enclosure) {bound : Nat} (bs : List UInt8) (h : bs.length ≤ bound) :
    Scan Unit bound :=
  match enclosing with
  | .object :: _ =>
    match skipSpace bs, skipSpace_le h with
    | [], _ => failNext .endInObject []
    | b :: rest, h =>
      if b = byte '"' then
        match skipString rest (tail_le h) with
        | .error e => .error e
        | .ok key => colon key.rest key.le_bound
      else failNext .keyNotString (b :: rest)
  | _ => .ok ⟨(), bs, h⟩

/-- The inside of an array or object after its opening byte: it is empty and left again, or its
first item comes next. -/
def enter (enclosing : List Enclosure) (e : Enclosure) (rest : List UInt8) :
    Scan (List Enclosure) rest.length :=
  match skipSpace rest, length_skipSpace_le rest with
  | [], _ => failNext e.ended []
  | c :: after, h =>
    if c = e.closer then leave enclosing after (tail_le_length h)
    else .ok ⟨e :: enclosing, c :: after, h⟩

/-- The front of an item: a value without parts, or the start of an array or object that has parts.
The result is what is open at the next item, empty if all is closed. -/
def skipFront (enclosing : List Enclosure) (b : UInt8) (rest : List UInt8) :
    Scan (List Enclosure) rest.length :=
  if b = byte '[' then enter enclosing .list rest
  else if b = byte '\x7b' then enter enclosing .object rest
  else
    match skipScalar b rest (length_le_self _) with
    | .error e => .error e
    | .ok t => leave enclosing t.rest t.le_length

/-- An item and all that follows it up to the end of the outermost value. -/
def skipItem (enclosing : List Enclosure) {bound : Nat} (bs : List UInt8) (h : bs.length ≤ bound) :
    Scan Unit bound :=
  match skipKey enclosing bs (length_le_self _) with
  | .error e => .error e
  | .ok key =>
    match skipSpace key.rest, Nat.le_trans (length_skipSpace_le key.rest) key.le_bound with
    | [], _ => failNext .endInValue []
    | b :: rest, hb =>
      match skipFront enclosing b rest with
      | .error e => .error e
      | .ok t =>
        have ht : t.rest.length ≤ bound :=
          Nat.le_trans (Nat.le_trans t.le_bound (tail_le hb)) h
        if t.value.isEmpty then .ok ⟨(), t.rest, ht⟩ else skipItem t.value t.rest ht
termination_by bs.length
decreasing_by exact Nat.lt_of_le_of_lt t.le_bound hb

/-- Passes over a value. -/
def skipValue : Reader Unit := fun bs => skipItem [] bs (length_le_self _)

end LanguageServer.Json
