import LanguageServer.Json.Failure

/-! # Reading numbers

A number without point and exponent is an integer if it fits 64 bits, without a sign or with one.
Any other, and minus zero, is floating point: the digits are read as one number of 64 bits, as far
as they fit, which is then scaled by a power of ten. -/

namespace LanguageServer.Json

/-- Whether the byte is a decimal digit. -/
def isDigit (b : UInt8) : Bool := byte '0' ≤ b && b ≤ byte '9'

/-- The value of a decimal digit. -/
def digitValue (b : UInt8) : Nat := b.toNat - 0x30

/-- The greatest significand that is kept. -/
def maxSignificand : Nat := 0xFFFFFFFFFFFFFFFF

/-- The greatest exponent that is kept. -/
def maxExponent : Nat := 0x7FFFFFFF

/-- The digits that extend `value` without exceeding `limit`, and how many they are; `count` are
read already. -/
def digits (limit value count : Nat) {bound : Nat} (bs : List UInt8) (h : bs.length ≤ bound) :
    Taken UInt8 (Nat × Nat) bound :=
  match bs, h with
  | [], h => ⟨(value, count), [], h⟩
  | b :: rest, h =>
    let next := value * 10 + digitValue b
    if isDigit b && next ≤ limit then digits limit next (count + 1) rest (tail_le h)
    else ⟨(value, count), b :: rest, h⟩

/-- Whether a digit comes next. -/
def digitNext : List UInt8 → Bool
  | b :: _ => isDigit b
  | [] => false

/-- The bytes after the digits at the front, and how many digits there are. -/
def dropDigits {bound : Nat} (bs : List UInt8) (h : bs.length ≤ bound) : Taken UInt8 Nat bound :=
  ⟨(bs.takeWhile isDigit).length, bs.dropWhile isDigit,
    Nat.le_trans (List.dropWhile_suffix isDigit).length_le h⟩

/-! ### Floating point -/

/-- The power of ten with the given exponent, to the nearest double. -/
def powerOfTen (n : Nat) : Float := Float.ofScientific 1 false n

/-- The greatest exponent of a power of ten that is a double. -/
def maxPower : Nat := 308

/-- `x · 10^exponent`, rounded after each multiplication or division; none if it is too large. -/
def scale (x : Float) (exponent : Int) : Option Float :=
  if exponent.natAbs ≤ maxPower then
    if exponent < 0 then some (x / powerOfTen exponent.natAbs)
    else
      let y := x * powerOfTen exponent.natAbs
      if y.isInf then none else some y
  else if x == 0 then some x
  else if 0 ≤ exponent then none
  else scale (x / powerOfTen maxPower) (exponent + maxPower)
termination_by (-exponent).toNat
decreasing_by
  simp only [maxPower] at *
  omega

/-- The sign of a number put before its magnitude. -/
def signed (negative : Bool) (x : Float) : Float := if negative then -x else x

/-- A number from its parts. -/
def ofParts (negative : Bool) (significand : Nat) (exponent : Int) {bound : Nat}
    (bs : List UInt8) (h : bs.length ≤ bound) : Scan Json bound :=
  match scale significand.toUInt64.toFloat exponent with
  | some x => .ok ⟨.float (signed negative x), bs, h⟩
  | none => failHere .numberOutOfRange bs

/-- The digits of an exponent that goes down or up, and is added to `start`. -/
def exponentDigits (negative down : Bool) (significand : Nat) (start : Int) {bound : Nat}
    (bs : List UInt8) (h : bs.length ≤ bound) : Scan Json bound :=
  match bs, h with
  | [], _ => failHere .endInValue []
  | b :: rest, h =>
    if isDigit b then
      let exponent := digits maxExponent (digitValue b) 0 rest (tail_le h)
      if digitNext exponent.rest then
        if significand ≠ 0 ∧ !down then failHere .numberOutOfRange (exponent.rest.drop 1)
        else
          let after := dropDigits exponent.rest exponent.le_bound
          .ok ⟨.float (signed negative 0), after.rest, after.le_bound⟩
      else
        let e : Int := exponent.value.1
        ofParts negative significand (if down then start - e else start + e)
          exponent.rest exponent.le_bound
    else failHere .invalidNumber rest

/-- The exponent of a number, after the letter that announces it. `start` is added to it. -/
def exponentPart (negative : Bool) (significand : Nat) (start : Int) {bound : Nat}
    (bs : List UInt8) (h : bs.length ≤ bound) : Scan Json bound :=
  match bs, h with
  | b :: rest, h =>
    if b = byte '+' then exponentDigits negative false significand start rest (tail_le h)
    else if b = byte '-' then exponentDigits negative true significand start rest (tail_le h)
    else exponentDigits negative false significand start (b :: rest) h
  | [], h => exponentDigits negative false significand start [] h

/-- Whether an exponent is announced, and the bytes after the letter. -/
def exponentNext? {bound : Nat} (bs : List UInt8) (h : bs.length ≤ bound) :
    Option (Taken UInt8 Unit bound) :=
  match bs, h with
  | b :: rest, h =>
    if b = byte 'e' || b = byte 'E' then some ⟨(), rest, tail_le h⟩ else none
  | [], _ => none

/-- The end of a number with a point or with digits that did not fit: an exponent or nothing. -/
def floatEnd (negative : Bool) (significand : Nat) (exponent : Int) {bound : Nat}
    (bs : List UInt8) (h : bs.length ≤ bound) : Scan Json bound :=
  match exponentNext? bs h with
  | some after => exponentPart negative significand exponent after.rest after.le_bound
  | none => ofParts negative significand exponent bs h

/-- The digits after the point, of which there is at least one, and the exponent. -/
def fractionPart (negative : Bool) (significand : Nat) (exponent : Int) {bound : Nat}
    (bs : List UInt8) (h : bs.length ≤ bound) : Scan Json bound :=
  let fraction := digits maxSignificand significand 0 bs h
  let exponent := exponent - fraction.value.2
  if digitNext fraction.rest then
    let after := dropDigits fraction.rest fraction.le_bound
    floatEnd negative fraction.value.1 exponent after.rest after.le_bound
  else if fraction.value.2 = 0 then
    failNext (if fraction.rest.isEmpty then .endInValue else .invalidNumber) fraction.rest
  else floatEnd negative fraction.value.1 exponent fraction.rest fraction.le_bound

/-- An integer in the range of 64 bits, floating point otherwise and for minus zero. -/
def whole (negative : Bool) (significand : Nat) : Json :=
  if !negative then .integer significand
  else if significand = 0 ∨ 0x8000000000000000 < significand then
    .float (-significand.toUInt64.toFloat)
  else .integer (-(significand : Int))

/-- The rest of a number whose digits before the point gave `significand`. -/
def afterWhole (negative : Bool) (significand : Nat) {bound : Nat} (bs : List UInt8)
    (h : bs.length ≤ bound) : Scan Json bound :=
  match bs, h with
  | b :: rest, h =>
    if b = byte '.' then fractionPart negative significand 0 rest (tail_le h)
    else if b = byte 'e' || b = byte 'E' then
      exponentPart negative significand 0 rest (tail_le h)
    else .ok ⟨whole negative significand, b :: rest, h⟩
  | [], h => .ok ⟨whole negative significand, [], h⟩

/-- The rest of a number with more digits before the point than fit. -/
def afterLongWhole (negative : Bool) (significand : Nat) {bound : Nat} (bs : List UInt8)
    (h : bs.length ≤ bound) : Scan Json bound :=
  let dropped := dropDigits bs h
  match dropped.rest, dropped.le_bound with
  | b :: rest, h =>
    if b = byte '.' then
      fractionPart negative significand dropped.value rest (tail_le h)
    else floatEnd negative significand dropped.value (b :: rest) h
  | [], h => floatEnd negative significand dropped.value [] h

/-- **A number** that starts with the byte `b`, its sign apart. -/
def number (negative : Bool) {bound : Nat} (b : UInt8) (rest : List UInt8)
    (h : rest.length ≤ bound) : Scan Json bound :=
  if b = byte '0' then
    if digitNext rest then failNext .invalidNumber rest else afterWhole negative 0 rest h
  else if isDigit b then
    let significand := digits maxSignificand (digitValue b) 0 rest h
    if digitNext significand.rest then
      afterLongWhole negative significand.value.1 significand.rest significand.le_bound
    else afterWhole negative significand.value.1 significand.rest significand.le_bound
  else failHere .invalidNumber rest

/-- A number after its minus sign. -/
def negativeNumber {bound : Nat} (bs : List UInt8) (h : bs.length ≤ bound) : Scan Json bound :=
  match bs, h with
  | [], _ => failHere .endInValue []
  | b :: rest, h => number true b rest (tail_le h)

end LanguageServer.Json
