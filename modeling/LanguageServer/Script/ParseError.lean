import LanguageServer.Text.Quoted

/-! # Errors of reading a program

What is wrong with a text, and the offset of the character where it shows. -/

namespace LanguageServer.Script

/-- Why a text is no program. -/
inductive Fault
  | unterminatedString
  | invalidEscape
  | unexpectedCharacter (c : Char)
  | unexpectedToken
  | nestedTooDeeply
  | unexpectedEnd
  | expectedExpression
  | expectedFunctionName
  | expectedOpenParen
  | expectedCloseParen
  deriving DecidableEq, Repr

/-- The wording of a fault. -/
def Fault.message : Fault → String
  | unterminatedString => "unterminated string"
  | invalidEscape => "invalid escape sequence"
  | unexpectedCharacter c => "unexpected character " ++ Text.quotedChar c
  | unexpectedToken => "unexpected token"
  | nestedTooDeeply => "expression nested too deeply"
  | unexpectedEnd => "unexpected end of input"
  | expectedExpression => "expected an expression"
  | expectedFunctionName => "expected a function name"
  | expectedOpenParen => "expected '('"
  | expectedCloseParen => "expected ')'"

/-- A fault and the offset of the character where it shows. -/
structure ParseError where
  fault : Fault
  offset : Nat
  deriving DecidableEq, Repr

/-- The fault's wording, then the place. -/
def ParseError.message (e : ParseError) : String :=
  e.fault.message ++ " at character " ++ toString e.offset

end LanguageServer.Script
