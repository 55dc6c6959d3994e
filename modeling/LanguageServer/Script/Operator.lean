/-! # Operators

The operators of the language, their spelling and how tightly each binds. An infix operator has a
left and a right strength: the operand on a side goes to the operator whose strength on that side is
greater, so `(1, 2)` associates to the left and `(14, 13)` to the right. -/

namespace LanguageServer.Script

/-- An operator, infix or standing before its operand. -/
inductive Operator
  | power | equal | notEqual | lessEqual | greaterEqual | and | or
  | plus | minus | times | divide | remainder | less | greater | not
  deriving DecidableEq, Repr

namespace Operator

/-- All operators, those of two characters first: the first that fits is the longest. -/
def all : List Operator :=
  [power, equal, notEqual, lessEqual, greaterEqual, and, or,
   plus, minus, times, divide, remainder, less, greater, not]

/-- How the operator is written. -/
def symbol : Operator → String
  | power => "**"
  | equal => "=="
  | notEqual => "!="
  | lessEqual => "<="
  | greaterEqual => ">="
  | and => "&&"
  | or => "||"
  | plus => "+"
  | minus => "-"
  | times => "*"
  | divide => "/"
  | remainder => "%"
  | less => "<"
  | greater => ">"
  | not => "!"

/-- Left and right strength of an infix operator. -/
def strength? : Operator → Option (Nat × Nat)
  | or => some (1, 2)
  | and => some (3, 4)
  | equal | notEqual => some (5, 6)
  | less | lessEqual | greater | greaterEqual => some (7, 8)
  | plus | minus => some (9, 10)
  | times | divide | remainder => some (11, 12)
  | power => some (14, 13)
  | not => none

/-- Whether the operator may stand before its operand. -/
def isSign : Operator → Bool
  | minus | not => true
  | _ => false

/-- Strength with which an operator before its operand holds it: above every infix one. -/
def signStrength : Nat := 15

/-- The longest operator that the text starts with. -/
def readFrom? (cs : List Char) : Option Operator :=
  all.find? fun op => op.symbol.toList.isPrefixOf cs

theorem mem_all (op : Operator) : op ∈ all := by cases op <;> decide

end Operator

end LanguageServer.Script
