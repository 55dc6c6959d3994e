import LanguageServer.Script.Parse

/-! # The parser as a machine with a cursor

The readers of the parser hand what is left of the tokens to one another. A parser that keeps all
tokens instead goes through them with a *cursor*, and counts the expressions that are open. It could
look outside its tokens, move the cursor behind the last of them, leave the counter changed, or go
through one of its loops forever. Here it is written down as such a machine.

* `State`: the cursor, and what happened so far;
* `peek`, `advance`, `expect`: the machine looks at a token, and takes it;
* `deeper`: the counter goes up before an expression and down behind it;
* `arguments`, `infixes`, `skipNewlines`, `statements`: its loops, each with the number of rounds
  that it may take at most; expressions in one another are bounded in the same way.

A machine that would take more rounds gives nothing, and neither does one that looks outside its
tokens. -/

namespace LanguageServer.Script

namespace Machine

/-- A place of the machine: the number of tokens before the next one, and the number of expressions
that are open. -/
structure Cursor where
  pos : Nat
  depth : Nat
  deriving DecidableEq, Repr

/-- What happens in the machine: it stands at a place, new or to look at a token from, or it has
read an expression between two places. -/
inductive Event
  | stands (c : Cursor)
  | reads (before after : Cursor)

/-- The state of the machine: where it is, and what happened so far, last first. -/
structure State where
  cursor : Cursor
  events : List Event

/-- Changes of the state, which may give nothing. -/
abbrev Steps := StateT State Option

end Machine

/-- A machine that changes its state and gives a value or a complaint. -/
abbrev Machine := ExceptT ParseError Machine.Steps

namespace Machine

/-- Where the machine is. -/
def here : Machine Cursor := do return (← get).cursor

/-- Something happens. -/
def note (event : Event) : Machine Unit := modify fun s => ⟨s.cursor, event :: s.events⟩

/-- Changes the place. -/
def goTo (c : Cursor) : Machine Unit := modify fun s => ⟨c, .stands c :: s.events⟩

/-- How the machine ends, be it with a complaint. -/
def attempt {α : Type} (m : Machine α) : Machine (Except ParseError α) :=
  show Steps (Except ParseError (Except ParseError α)) from Except.ok <$> ExceptT.run m

/-- More rounds would be taken. -/
def unfinished {α : Type} : Machine α := liftM (none : Option α)

/-- Runs with one more expression open, and closes it however the run ends. -/
def deeper (m : Machine Expr) : Machine Expr := do
  let before ← here
  goTo ⟨before.pos, before.depth + 1⟩
  let result ← attempt m
  let inside ← here
  goTo ⟨inside.pos, inside.depth - 1⟩
  match result with
  | .ok e => do
    note (.reads before ⟨inside.pos, inside.depth - 1⟩)
    return e
  | .error e => throw e

section Tokens
variable (ts : List Token)

/-- The next token. A place behind the last token counts as the last one. -/
def peek : Machine Token := do
  let c ← here
  note (.stands c)
  ts[min c.pos (ts.length - 1)]?

/-- Takes the next token. The cursor stays before the token that ends the text. -/
def advance : Machine Token := do
  let t ← peek ts
  if t.kind = .finish then return t
  else do
    let c ← here
    goTo ⟨c.pos + 1, c.depth⟩
    return t

/-- Takes the next token, which should be of the given kind. -/
def expect (kind : Token.Kind) (fault : Fault) : Machine Span := do
  let t ← advance ts
  if t.kind = kind then return t.span else throw ⟨fault, t.span.start⟩

section Nested
variable (nested : Nat → Machine Expr)

/-- One or more arguments divided by commas, after the arguments `read`, last first. -/
def arguments : (rounds : Nat) → (read : List Expr) → Machine (List Expr)
  | 0, _ => unfinished
  | rounds + 1, read => do
    let arg ← nested 0
    let next ← peek ts
    if next.kind = .comma then do
      let _ ← advance ts
      arguments rounds (arg :: read)
    else return (arg :: read).reverse

/-- The arguments of a call in their parentheses. -/
def call (rounds : Nat) (callee : Callee) (start : Span) : Machine Expr := do
  let _ ← expect ts .openParen .expectedOpenParen
  let next ← peek ts
  let args ← if next.kind = .closeParen then pure [] else arguments ts nested rounds []
  let close ← expect ts .closeParen .expectedCloseParen
  return .call callee args (start.join close)

/-- What a name begins. -/
def named (rounds : Nat) (name : String) (span : Span) : Machine Expr := do
  let next ← peek ts
  match next.kind with
  | .openParen => call ts nested rounds ⟨"", name⟩ span
  | .dot => do
    let _ ← advance ts
    let member ← advance ts
    match member.kind with
    | .identifier memberName => do
      let paren ← peek ts
      if paren.kind = .openParen then call ts nested rounds ⟨name, memberName⟩ span
      else throw ⟨.expectedOpenParen, paren.span.start⟩
    | _ => throw ⟨.expectedFunctionName, member.span.start⟩
  | _ => return .identifier name span

/-- An operand. -/
def operand (rounds : Nat) : Machine Expr := do
  let t ← advance ts
  match t.kind with
  | .identifier name => named ts nested rounds name t.span
  | .number digits => return .number digits t.span
  | .text contents => return .text contents t.span
  | .boolean value => return .boolean value t.span
  | .null => return .null t.span
  | .operator op =>
    if op.isSign then do
      let inner ← nested Operator.signStrength
      return .unary op inner (t.span.join inner.span)
    else throw ⟨.expectedExpression, t.span.start⟩
  | .openParen => do
    let inner ← nested 0
    let _ ← expect ts .closeParen .expectedCloseParen
    return inner
  | .finish => throw ⟨.unexpectedEnd, t.span.start⟩
  | .closeParen | .comma | .dot | .newline => throw ⟨.expectedExpression, t.span.start⟩

/-- The infix operators with a left strength of at least `floor` and their right operands, after the
expression `left`. -/
def infixes (floor : Nat) : (rounds : Nat) → (left : Expr) → Machine Expr
  | 0, _ => unfinished
  | rounds + 1, left => do
    let next ← peek ts
    match next.kind with
    | .operator op =>
      match op.strength? with
      | none => return left
      | some (leftStrength, rightStrength) =>
        if leftStrength < floor then return left
        else do
          let _ ← advance ts
          let right ← nested rightStrength
          infixes floor rounds (.binary left op right (left.span.join right.span))
    | _ => return left

end Nested

/-- An expression, unless too many are open. -/
def expression : (rounds : Nat) → (floor : Nat) → Machine Expr
  | 0, _ => unfinished
  | rounds + 1, floor => do
    let c ← here
    if maxNesting ≤ c.depth then do
      let next ← peek ts
      throw ⟨.nestedTooDeeply, next.span.start⟩
    else
      deeper do
        let left ← operand ts (expression rounds) rounds
        infixes ts (expression rounds) floor rounds left

/-- Takes the ends of lines. -/
def skipNewlines : (rounds : Nat) → Machine Unit
  | 0 => unfinished
  | rounds + 1 => do
    let next ← peek ts
    if next.kind = .newline then do
      let _ ← advance ts
      skipNewlines rounds
    else return ()

/-- The statements up to the end of the tokens, after the statements `read`, last first. -/
def statements : (rounds : Nat) → (read : List Expr) → Machine (List Expr)
  | 0, _ => unfinished
  | rounds + 1, read => do
    skipNewlines ts (rounds + 1)
    let next ← peek ts
    if next.kind = .finish then return read.reverse
    else do
      let statement ← expression ts (rounds + 1) 0
      let next ← peek ts
      if next.kind = .newline ∨ next.kind = .finish then statements rounds (statement :: read)
      else throw ⟨.unexpectedToken, next.span.start⟩

end Tokens

/-! ### What the machine does from a state -/

section Runs
variable {α β : Type} {m : Machine β} {k : β → Machine α} {s s' : State}

/-- What the machine gives from a state, and the state that it leaves. -/
def runFrom (m : Machine α) (s : State) : Option (Except ParseError α × State) :=
  StateT.run (ExceptT.run m) s

theorem runFrom_here (s : State) : here.runFrom s = some (.ok s.cursor, s) := rfl

theorem runFrom_note (event : Event) (s : State) :
    (note event).runFrom s = some (.ok (), ⟨s.cursor, event :: s.events⟩) := rfl

theorem runFrom_goTo (c : Cursor) (s : State) :
    (goTo c).runFrom s = some (.ok (), ⟨c, .stands c :: s.events⟩) := rfl

theorem runFrom_attempt {ending : Except ParseError β} (h : m.runFrom s = some (ending, s')) :
    (attempt m).runFrom s = some (.ok ending, s') := by
  rw [runFrom] at h
  show StateT.run (Except.ok <$> ExceptT.run m) s = _
  rw [StateT.run_map, h]
  rfl

theorem runFrom_attempt_none (h : m.runFrom s = none) : (attempt m).runFrom s = none := by
  rw [runFrom] at h
  show StateT.run (Except.ok <$> ExceptT.run m) s = _
  rw [StateT.run_map, h]
  rfl

theorem runFrom_bind_none (h : m.runFrom s = none) : (m >>= k).runFrom s = none := by
  rw [runFrom] at h
  rw [runFrom, ExceptT.run_bind, StateT.run_bind, h]
  rfl

theorem runFrom_bind_ok {b : β} (h : m.runFrom s = some (.ok b, s')) :
    (m >>= k).runFrom s = (k b).runFrom s' := by
  rw [runFrom] at h
  rw [runFrom, ExceptT.run_bind, StateT.run_bind, h]
  rfl

theorem runFrom_bind_error {e : ParseError} (h : m.runFrom s = some (.error e, s')) :
    (m >>= k).runFrom s = some (.error e, s') := by
  rw [runFrom] at h
  rw [runFrom, ExceptT.run_bind, StateT.run_bind, h]
  rfl

end Runs

end Machine

end LanguageServer.Script
