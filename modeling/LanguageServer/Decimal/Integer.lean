/-! # Reading integers

The text of an integer that fits 64 bits with a sign: an optional sign and one or more digits. The
text is read from the left, and the first character that is no digit or makes the number too long
decides the error. -/

namespace LanguageServer.Decimal

/-- Why a text is no integer. -/
inductive IntegerFault
  | empty
  | invalidDigit
  | tooLarge
  | tooSmall
  deriving DecidableEq, Repr

/-- The wording of a fault. -/
def IntegerFault.message : IntegerFault → String
  | empty => "cannot parse integer from empty string"
  | invalidDigit => "invalid digit found in string"
  | tooLarge => "number too large to fit in target type"
  | tooSmall => "number too small to fit in target type"

/-- The digits after those that gave `value`, as long as the number is at most `limit`. -/
def readDigits (limit : Nat) (overflow : IntegerFault) (value : Nat) :
    List Char → Except IntegerFault Nat
  | [] => .ok value
  | c :: cs =>
    if c.isDigit then
      let next := value * 10 + (c.toNat - '0'.toNat)
      if limit < next then .error overflow else readDigits limit overflow next cs
    else .error .invalidDigit

/-- One or more digits. -/
def readNumber (limit : Nat) (overflow : IntegerFault) (cs : List Char) : Except IntegerFault Nat :=
  if cs.isEmpty then .error .invalidDigit else readDigits limit overflow 0 cs

/-- The greatest integer of 64 bits with a sign. -/
def maxInteger : Nat := 0x7FFFFFFFFFFFFFFF

/-- The integer that a text spells. -/
def readInteger : List Char → Except IntegerFault Int
  | [] => .error .empty
  | '+' :: cs => (readNumber maxInteger .tooLarge cs).map Int.ofNat
  | '-' :: cs => (readNumber (maxInteger + 1) .tooSmall cs).map fun n => -(n : Int)
  | cs => (readNumber maxInteger .tooLarge cs).map Int.ofNat

end LanguageServer.Decimal
