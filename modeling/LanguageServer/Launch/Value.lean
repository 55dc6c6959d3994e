import LanguageServer.Launch.Pattern.Read

/-! # Values to ask for

The value that a directive asks of a detail is a number or a pattern. A number without a sign, or
with a minus sign, is a pattern too. -/

namespace LanguageServer.Value

/-- Whether a text is the size of a number. -/
def isMagnitude (cs : List Char) : Bool :=
  if ["INF", "INFINITY", "NAN"].contains (String.ofList (cs.map Char.toUpper)) then true
  else
    let whole := cs.takeWhile Char.isDigit
    let rest := cs.drop whole.length
    let fraction := if rest.head? = some '.' then (rest.drop 1).takeWhile Char.isDigit else []
    let rest := if rest.head? = some '.' then rest.drop (fraction.length + 1) else rest
    (!whole.isEmpty || !fraction.isEmpty) &&
      match rest with
      | [] => true
      | c :: sign :: digits =>
        let digits := if sign = '+' || sign = '-' then digits else sign :: digits
        (c = 'e' || c = 'E') && !digits.isEmpty && digits.all Char.isDigit
      | _ => false

/-- **Whether a text is a value to ask for:** a number, which may have a plus sign, or a pattern
that is supported. -/
def isValue : List Char → Bool
  | '+' :: cs => isMagnitude cs
  | cs => (Pattern.ofText? cs).any (·.isSupported)

end LanguageServer.Value
