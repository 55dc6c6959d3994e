import LanguageServer.Script.Expr
import LanguageServer.Script.Token
import LanguageServer.Taken

/-! # From tokens to expressions

Statements stand on lines of their own. An expression is an *operand*, then a *chain* of infix
operators and right operands; `expression n floor` reads one whose infix operators have a left
strength of at least `floor` and which nests at most `n` deep. Operands and right operands are
expressions with one level less, so the recursion is on `n`, and each loop shortens the tokens. -/

namespace LanguageServer.Script

/-- The deepest nesting of expressions. -/
def maxNesting : Nat := 256

/-- Where the next token starts. -/
def nextOffset : List Token → Nat
  | [] => 0
  | t :: _ => t.span.start

/-- What reading off the front of at most `bound` tokens gives. -/
abbrev Reading (α : Type) (bound : Nat) := Except ParseError (Taken Token α bound)

/-- A reader of expressions whose infix operators have at least a given left strength. -/
abbrev ExprReader := (floor : Nat) → (ts : List Token) → Reading Expr ts.length

section Operand

variable (nested : ExprReader)

/-- The closing parenthesis, or the complaint that it is missing. -/
def closing {bound : Nat} (ts : List Token) (h : ts.length ≤ bound) : Reading Span bound :=
  match ts, h with
  | ⟨.closeParen, span⟩ :: rest, h => .ok ⟨span, rest, tail_le h⟩
  | ts, _ => .error ⟨.expectedCloseParen, nextOffset ts⟩

/-- One or more arguments divided by commas, after the arguments `read`, last first. -/
def argumentList {bound : Nat} (read : List Expr) (ts : List Token) (h : ts.length ≤ bound) :
    Reading (List Expr) bound :=
  match nested 0 ts with
  | .error e => .error e
  | .ok arg =>
    match arg.rest, arg.le_bound with
    | ⟨.comma, _⟩ :: rest, shorter =>
      argumentList (arg.value :: read) rest (Nat.le_trans (tail_le shorter) h)
    | rest, shorter => .ok ⟨(arg.value :: read).reverse, rest, Nat.le_trans shorter h⟩
termination_by ts.length
decreasing_by exact shorter

/-- The arguments of a call and its closing parenthesis, after the opening one. -/
def call {bound : Nat} (callee : Callee) (start : Span) (ts : List Token) (h : ts.length ≤ bound) :
    Reading Expr bound :=
  match ts, h with
  | ⟨.closeParen, span⟩ :: rest, h =>
    .ok ⟨.call callee [] (start.join span), rest, tail_le h⟩
  | ts, h =>
    match argumentList nested [] ts h with
    | .error e => .error e
    | .ok args =>
      match closing args.rest args.le_bound with
      | .error e => .error e
      | .ok close => .ok (close.map fun span => .call callee args.value (start.join span))

/-- What a name begins: a call of it, a call of a function in the package it names, or just the
name. -/
def named {bound : Nat} (name : String) (span : Span) (ts : List Token) (h : ts.length ≤ bound) :
    Reading Expr bound :=
  match ts, h with
  | ⟨.openParen, _⟩ :: inside, h => call nested ⟨"", name⟩ span inside (tail_le h)
  | ⟨.dot, _⟩ :: ⟨.identifier member, _⟩ :: ⟨.openParen, _⟩ :: inside, h =>
    call nested ⟨name, member⟩ span inside (by simp only [List.length_cons] at h; omega)
  | ⟨.dot, _⟩ :: ⟨.identifier _, _⟩ :: after, _ => .error ⟨.expectedOpenParen, nextOffset after⟩
  | ⟨.dot, _⟩ :: after, _ => .error ⟨.expectedFunctionName, nextOffset after⟩
  | ts, h => .ok ⟨.identifier name span, ts, h⟩

/-- An operand: a name, a literal, a call, an operator before its operand, or an expression in
parentheses. -/
def operand (ts : List Token) : Reading Expr ts.length :=
  match ts with
  | [] => .error ⟨.unexpectedEnd, 0⟩
  | ⟨kind, span⟩ :: rest =>
    have shorter : rest.length ≤ rest.length + 1 := Nat.le_succ _
    match kind with
    | .identifier name => named nested name span rest shorter
    | .number digits => .ok ⟨.number digits span, rest, shorter⟩
    | .text contents => .ok ⟨.text contents span, rest, shorter⟩
    | .boolean value => .ok ⟨.boolean value span, rest, shorter⟩
    | .null => .ok ⟨.null span, rest, shorter⟩
    | .operator op =>
      if op.isSign then
        match nested Operator.signStrength rest with
        | .error e => .error e
        | .ok inner =>
          .ok ((inner.map fun e => .unary op e (span.join e.span)).widen shorter)
      else .error ⟨.expectedExpression, span.start⟩
    | .openParen =>
      match nested 0 rest with
      | .error e => .error e
      | .ok inner =>
        match closing inner.rest (Nat.le_trans inner.le_bound shorter) with
        | .error e => .error e
        | .ok close => .ok (close.map fun _ => inner.value)
    | .finish => .error ⟨.unexpectedEnd, span.start⟩
    | .closeParen | .comma | .dot | .newline => .error ⟨.expectedExpression, span.start⟩

/-- The infix operators with a left strength of at least `floor` and their right operands, after the
expression `left`. -/
def chain {bound : Nat} (floor : Nat) (left : Expr) (ts : List Token) (h : ts.length ≤ bound) :
    Reading Expr bound :=
  match ts, h with
  | ⟨.operator op, opSpan⟩ :: rest, h =>
    match op.strength? with
    | none => .ok ⟨left, ⟨.operator op, opSpan⟩ :: rest, h⟩
    | some (leftStrength, rightStrength) =>
      if leftStrength < floor then .ok ⟨left, ⟨.operator op, opSpan⟩ :: rest, h⟩
      else
        match nested rightStrength rest with
        | .error e => .error e
        | .ok right =>
          chain floor (.binary left op right.value (left.span.join right.value.span)) right.rest
            (Nat.le_trans right.le_bound (tail_le h))
  | ts, h => .ok ⟨left, ts, h⟩
termination_by ts.length
decreasing_by exact Nat.lt_succ_of_le right.le_bound

end Operand

/-- An expression that nests at most the given number of levels deep. -/
def expression : Nat → ExprReader
  | 0, _, ts => .error ⟨.nestedTooDeeply, nextOffset ts⟩
  | level + 1, floor, ts =>
    match operand (expression level) ts with
    | .error e => .error e
    | .ok left => chain (expression level) floor left.value left.rest left.le_bound

/-- The statements up to the end of the tokens, after the statements `read`, last first. -/
def statements (read : List Expr) (ts : List Token) : Except ParseError (List Expr) :=
  match ts with
  | [] => .ok read.reverse
  | ⟨.finish, _⟩ :: _ => .ok read.reverse
  | ⟨.newline, _⟩ :: rest => statements read rest
  | t :: rest =>
    match expression maxNesting 0 (t :: rest) with
    | .error e => .error e
    | .ok statement =>
      match statement.rest, statement.le_bound with
      | ⟨.newline, _⟩ :: after, _shorter => statements (statement.value :: read) after
      | ⟨.finish, _⟩ :: _, _ => .ok (statement.value :: read).reverse
      | after, _ => .error ⟨.unexpectedToken, nextOffset after⟩
termination_by ts.length
decreasing_by
  · exact Nat.lt_succ_self _
  · exact _shorter

/-- The program that a text spells: one block over all its characters. -/
def parse (text : String) : Except ParseError Expr :=
  match tokens text with
  | .error e => .error e
  | .ok ts => (statements [] ts).map fun es => .block es ⟨0, text.length⟩

end LanguageServer.Script
