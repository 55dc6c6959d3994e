import LanguageServer.Script.Operator
import LanguageServer.Script.Span
import LanguageServer.Text.Quoted

/-! # Expressions

The tree of a program. A program is a block of statements, each an expression. Every node carries
the span of the characters it was read from; parentheses leave no node. -/

namespace LanguageServer.Script

/-- The function that a call names; the namespace of a global function is empty. -/
structure Callee where
  scope : String
  name : String
  deriving DecidableEq, Repr

/-- An expression, or the block of all statements of a program. -/
inductive Expr
  | identifier (name : String) (span : Span)
  | number (digits : String) (span : Span)
  | text (contents : String) (span : Span)
  | boolean (value : Bool) (span : Span)
  | null (span : Span)
  | unary (op : Operator) (operand : Expr) (span : Span)
  | binary (left : Expr) (op : Operator) (right : Expr) (span : Span)
  | call (callee : Callee) (arguments : List Expr) (span : Span)
  | block (statements : List Expr) (span : Span)

namespace Expr

/-- The characters the node was read from. -/
def span : Expr → Span
  | identifier _ s | number _ s | text _ s | boolean _ s | null s
  | unary _ _ s | binary _ _ _ s | call _ _ s | block _ s => s

/-- The nodes directly below, from left to right. -/
def children : Expr → List Expr
  | unary _ operand _ => [operand]
  | binary left _ right _ => [left, right]
  | call _ arguments _ => arguments
  | block statements _ => statements
  | identifier .. | number .. | text .. | boolean .. | null .. => []

/-- The name of the kind of node. -/
def kind : Expr → String
  | identifier .. => "Identifier"
  | number .. => "NumberLiteral"
  | text .. => "StringLiteral"
  | boolean .. => "BoolLiteral"
  | null .. => "NullLiteral"
  | unary .. => "PrefixExpr"
  | binary .. => "BinaryExpr"
  | call .. => "FunctionCall"
  | block .. => "StatementList"

/-- The function called, for a call. -/
def callee? : Expr → Option Callee
  | call callee _ _ => some callee
  | _ => none

/-! ### Rendering -/

mutual

/-- The expression as source text, with parentheses around every operator and its operands. -/
def render : Expr → String
  | identifier name _ => name
  | number digits _ => digits
  | text contents _ => Text.quoted contents
  | boolean value _ => if value then "true" else "false"
  | null _ => "null"
  | unary op operand _ => "(" ++ op.symbol ++ operand.render ++ ")"
  | binary left op right _ => "(" ++ left.render ++ " " ++ op.symbol ++ " " ++ right.render ++ ")"
  | call callee arguments _ =>
    let scope := if callee.scope = "" then "" else callee.scope ++ "."
    scope ++ callee.name ++ "(" ++ ", ".intercalate (renderAll arguments) ++ ")"
  | block statements _ => "\n".intercalate (renderAll statements)

/-- Each expression as source text. -/
def renderAll : List Expr → List String
  | [] => []
  | e :: es => e.render :: renderAll es

end

end Expr

end LanguageServer.Script
