import LanguageServer.Decimal.Shortest
import LanguageServer.Json.Value

/-! # Printing JSON

Values are printed without white space. In a string the quote, the backslash and the characters
below U+0020 are escaped, and no other. A floating-point number has the fewest digits that read
back: with a point and at least one digit after it from `10⁻⁵` up to `10¹⁶`, and with a signed
exponent outside that range. -/

namespace LanguageServer

namespace Decimal

/-- Least exponent of the leading digit that is written without an exponent. -/
def positionalFrom : Int := -5

/-- Greatest exponent of the leading digit that is written without an exponent. -/
def positionalTo : Int := 15

/-- The digits with a point after the first `whole` of them, padded with zeros where they end
early. -/
def positional (digits : List Char) (whole : Int) : List Char :=
  if whole ≤ 0 then '0' :: '.' :: List.replicate (-whole).toNat '0' ++ digits
  else
    let count := whole.toNat
    let fraction := digits.drop count
    digits.take count ++ List.replicate (count - digits.length) '0' ++
      '.' :: if fraction.isEmpty then ['0'] else fraction

/-- The digits with a point after the first, then the exponent with its sign. -/
def scientific (digits : List Char) (exponent : Int) : List Char :=
  let mantissa := match digits with
    | d :: e :: rest => d :: '.' :: e :: rest
    | ds => ds
  mantissa ++ ['e', if exponent < 0 then '-' else '+'] ++ Nat.toDigits 10 exponent.natAbs

/-- The text of a decimal without zeros at its end. -/
def text (d : Decimal) : List Char :=
  let digits := Nat.toDigits 10 d.coefficient
  let leading := d.exponent + digits.length - 1
  if d.coefficient = 0 then ['0', '.', '0']
  else if positionalFrom ≤ leading ∧ leading ≤ positionalTo then positional digits (leading + 1)
  else scientific digits leading

end Decimal

namespace Json

/-- The text of a finite floating-point number. -/
def floatText (x : Float) : String :=
  let magnitude := (Decimal.shortest x).text
  String.ofList (if Decimal.signBit ≤ x.toBits.toNat then '-' :: magnitude else magnitude)

/-- How a character is written inside a string. -/
def escapeChar (c : Char) : List Char :=
  if c = '"' then ['\\', '"']
  else if c = '\\' then ['\\', '\\']
  else if c = '\x08' then ['\\', 'b']
  else if c = '\x0c' then ['\\', 'f']
  else if c = '\n' then ['\\', 'n']
  else if c = '\r' then ['\\', 'r']
  else if c = '\t' then ['\\', 't']
  else if c.toNat < 0x20 then
    ['\\', 'u', '0', '0', Nat.digitChar (c.toNat / 16), Nat.digitChar (c.toNat % 16)]
  else [c]

/-- A string in quotes. -/
def quote (s : String) : String :=
  String.ofList ('"' :: s.toList.flatMap escapeChar ++ ['"'])

mutual

/-- The text of a value. -/
def print : Json → String
  | null => "null"
  | bool value => if value then "true" else "false"
  | integer value => toString value
  | float value => floatText value
  | string value => quote value
  | array elements => "[" ++ ",".intercalate (printAll elements) ++ "]"
  | object members => "\x7b" ++ ",".intercalate (printMembers members) ++ "\x7d"

/-- The texts of the elements of an array. -/
def printAll : List Json → List String
  | [] => []
  | v :: vs => v.print :: printAll vs

/-- The texts of the members of an object. -/
def printMembers : List (String × Json) → List String
  | [] => []
  | (key, value) :: rest => (quote key ++ ":" ++ value.print) :: printMembers rest

end

end Json

end LanguageServer
