import LanguageServer.Launch.Pattern.Mode
import LanguageServer.Text.Blank
import LanguageServer.Text.Hex
import LanguageServer.Text.Letter
import LanguageServer.Text.Numeral

/-! # Reading patterns

A pattern is read from the left. The state holds the open groups and brackets with what has been
read of each; `State.step?` reads on by at least one character. Where `x` is switched on, blanks and
comments count as nothing. Counted repetitions have braces, which a pattern cannot hold here, so a
brace outside of brackets is refused. -/

namespace LanguageServer.Pattern

/-! ### Blanks and comments -/

/-- The text after blanks and comments. -/
def skipBlanks (inComment : Bool) : List Char → List Char
  | [] => []
  | c :: cs =>
    if inComment then skipBlanks (c ≠ '\n') cs
    else if Text.isBlank c then skipBlanks false cs
    else if c = '#' then skipBlanks true cs
    else c :: cs

/-- The text after what counts as nothing. -/
def skip (spaced : Bool) (cs : List Char) : List Char := if spaced then skipBlanks false cs else cs

/-- The character that a dash looks ahead to: the next one that is no blank, also behind the mark of
a comment; if all are blank, the very next one. -/
def ahead (spaced : Bool) (cs : List Char) : Option Char :=
  if spaced then
    let next := match cs.dropWhile Text.isBlank with
      | '#' :: rest => (rest.dropWhile Text.isBlank).head?
      | rest => rest.head?
    next.or cs.head?
  else cs.head?

/-! ### Escapes -/

/-- Reads a number of hexadecimal digits, after those that gave `value`. -/
def readHex (spaced : Bool) : Nat → Nat → List Char → Option (Nat × List Char)
  | 0, value, cs => some (value, cs)
  | digits + 1, value, cs =>
    match skip spaced cs with
    | [] => none
    | c :: rest => do readHex spaced digits (value * 16 + (← Text.hexValue? c)) rest

/-- Reads a character by the digits of its code point. -/
def readCode (spaced isByte : Bool) (digits : Nat) (cs : List Char) :
    Option (Pattern × List Char) := do
  let (code, rest) ← readHex spaced digits 0 cs
  guard (code < 0xD800 || (0xDFFF < code && code < 0x110000))
  return (.literal ⟨code, isByte⟩, rest)

/-- The control characters that have a letter. -/
def controls : List (Char × Nat) :=
  [('a', 0x07), ('t', 0x09), ('n', 0x0A), ('v', 0x0B), ('f', 0x0C), ('r', 0x0D)]

/-- Reads what follows a backslash. -/
def readEscape (spaced : Bool) : List Char → Option (Pattern × List Char)
  | [] => none
  | c :: cs =>
    match c with
    | 'x' => readCode spaced true 2 cs
    | 'u' => readCode spaced false 4 cs
    | 'U' => readCode spaced false 8 cs
    | 'd' | 's' | 'w' => some (.shorthand false, cs)
    | 'D' | 'S' | 'W' => some (.shorthand true, cs)
    | 'A' | 'z' => some (.edge, cs)
    | 'b' | 'B' | '<' | '>' => some (.boundary, cs)
    | c =>
      match controls.lookup c with
      | some code => some (.literal ⟨code, false⟩, cs)
      | none =>
        if c.toNat < 0x80 && !c.isAlphanum then some (.literal ⟨c.toNat, false⟩, cs) else none

/-! ### The state -/

/-- An open group, or the whole pattern: what it switches, whether blanks count as nothing outside
of it, and the items of the branch that is read and the branches before it, last first. -/
structure Group where
  switches : List Char := []
  spacedAround : Bool := false
  items : List Pattern := []
  branches : List Pattern := []

/-- The pattern that has been read of a group. -/
def Group.pattern (g : Group) : Pattern :=
  ofBranches (ofItems g.items.reverse :: g.branches).reverse

/-- An open bracket: whether the set is what does not stand in it, whether nothing but dashes has
been read, the parts since the last operation, last first, and that operation with what stands on
its left. -/
structure Bracket where
  negated : Bool
  fresh : Bool := true
  parts : List CharSet := []
  pending : Option (SetOperation × CharSet) := none

namespace Bracket

/-- The set that has been read of a bracket. -/
def set (b : Bracket) : CharSet :=
  let right := CharSet.ofParts b.parts.reverse
  match b.pending with
  | none => right
  | some (operation, left) => .combined operation left right

/-- The bracket with another part. -/
def push (b : Bracket) (part : CharSet) : Bracket :=
  { b with fresh := false, parts := part :: b.parts }

/-- The bracket after an operation. -/
def operate (b : Bracket) (operation : SetOperation) : Bracket :=
  { b with fresh := false, parts := [], pending := some (operation, b.set) }

end Bracket

/-- How far a pattern has been read: whether blanks count as nothing, the names of groups, the
innermost group, and the groups around it and the open brackets, the innermost first. -/
structure State where
  spaced : Bool := false
  names : List (List Char) := []
  group : Group := {}
  around : List Group := []
  brackets : List Bracket := []

namespace State

/-- The state with another item in the group. -/
def push (s : State) (item : Pattern) : State :=
  { s with group := { s.group with items := item :: s.group.items } }

/-- The pattern, if nothing is open. -/
def finish? (s : State) : Option Pattern :=
  if s.around.isEmpty && s.brackets.isEmpty then some s.group.pattern else none

/-! ### Groups -/

/-- Opens a group. -/
def enter (s : State) (switches : List Char) : State :=
  { s with
    spaced := switched switches 'x' s.spaced
    group := { switches, spacedAround := s.spaced }
    around := s.group :: s.around }

/-- Reads a closing parenthesis. -/
def leave? (s : State) : Option State :=
  match s.around with
  | [] => none
  | outer :: around =>
    let inner := Pattern.group s.group.switches s.group.pattern
    some ({ s with spaced := s.group.spacedAround, group := outer, around }.push inner)

/-- Begins another branch. -/
def branch (s : State) : State :=
  { s with
    group := { s.group with
      items := []
      branches := ofItems s.group.items.reverse :: s.group.branches } }

/-- Repeats the item before; there must be one. -/
def repeated? (s : State) : Option State :=
  match s.group.items with
  | [] | .switch _ :: _ => none
  | item :: items => some { s with group := { s.group with items := .repetition item :: items } }

/-- Whether the characters switch on, and after a dash off, each thing once. -/
def areSwitches (items : List Char) : Bool :=
  items.all (fun c => ['-', 'i', 'm', 's', 'U', 'u', 'R', 'x'].contains c && items.count c = 1) &&
    items.getLast? ≠ some '-'

/-- Whether the characters are a name for a group. -/
def isName : List Char → Bool
  | [] => false
  | c :: cs =>
    (c = '_' || Text.isLetter c) &&
      cs.all fun c => ['_', '.', '[', ']'].contains c || Text.isLetter c || Text.isNumeral c

/-- Reads the name of a group. -/
def named? (s : State) (cs : List Char) : Option (State × List Char) :=
  let name := cs.takeWhile (· ≠ '>')
  match cs.drop name.length with
  | [] => none
  | _ :: rest =>
    if isName name && !s.names.contains name then
      some ({ s.enter [] with names := name :: s.names }, rest)
    else none

/-- Reads what follows an opening parenthesis. -/
def open? (s : State) : List Char → Option (State × List Char)
  | '?' :: 'P' :: '<' :: cs => s.named? cs
  | '?' :: '<' :: cs => s.named? cs
  | '?' :: cs =>
    let items := cs.takeWhile fun c => c ≠ ':' && c ≠ ')'
    if !areSwitches items then none
    else
      match cs.drop items.length with
      | ':' :: rest => some (s.enter items, rest)
      | ')' :: rest =>
        if items.isEmpty then none
        else some ({ s with spaced := switched items 'x' s.spaced }.push (.switch items), rest)
      | _ => none
  | cs => some (s.enter [], cs)

/-! ### Brackets -/

/-- Opens a bracket. -/
def openBracket (s : State) (cs : List Char) : State × List Char :=
  match skip s.spaced cs with
  | '^' :: rest => ({ s with brackets := { negated := true } :: s.brackets }, rest)
  | _ => ({ s with brackets := { negated := false } :: s.brackets }, cs)

/-- Closes the bracket `b`, which stands in the brackets `outer`. -/
def closeBracket (s : State) (b : Bracket) (outer : List Bracket) : State :=
  let set := CharSet.bracketed b.negated b.set
  match outer with
  | [] => { s with brackets := [] }.push (.charSet set)
  | next :: outer => { s with brackets := next.push set :: outer }

/-- The names of sets. -/
def setNames : List String :=
  ["alnum", "alpha", "ascii", "blank", "cntrl", "digit", "graph", "lower", "print", "punct",
   "space", "upper", "word", "xdigit"]

/-- Reads a named set, after its opening bracket. -/
def readNamed : List Char → Option (CharSet × List Char)
  | ':' :: cs =>
    let negated := cs.head? = some '^'
    let cs := if negated then cs.drop 1 else cs
    let name := cs.takeWhile (· ≠ ':')
    match cs.drop name.length with
    | ':' :: ']' :: rest =>
      if setNames.contains (String.ofList name) then some (.named negated, rest) else none
    | _ => none
  | _ => none

/-- Reads what a part of a bracket starts with: a character or a shorthand. -/
def readPart (spaced : Bool) : List Char → Option (CharSet × List Char)
  | [] => none
  | '\\' :: cs => do
    match ← readEscape spaced cs with
    | (.literal c, rest) => return (.literal c, rest)
    | (.shorthand negated, rest) => return (.shorthand negated, rest)
    | _ => none
  | c :: cs => some (.literal ⟨c.toNat, false⟩, cs)

/-- Reads a part of a bracket: a character, a shorthand or a range. A dash before a dash or the
closing bracket makes no range. -/
def readRange (spaced : Bool) (cs : List Char) : Option (CharSet × List Char) := do
  let (first, rest) ← readPart spaced cs
  match skip spaced rest with
  | '-' :: more =>
    if [some ']', some '-'].contains (ahead spaced more) then return (first, '-' :: more)
    else
      let (last, rest) ← readPart spaced (skip spaced more)
      match first, last with
      | .literal low, .literal high =>
        if low.code ≤ high.code then return (.range low high, rest) else none
      | _, _ => none
  | rest => return (first, rest)

/-- The operation whose sign is the character twice. -/
def operation? : Char → Option SetOperation
  | '&' => some .intersection
  | '-' => some .difference
  | '~' => some .symmetricDifference
  | _ => none

/-- Reads on in the bracket `b`, where `c` is next. Dashes at the start stand for themselves, and so
does a closing bracket in the first place. -/
def inBracket? (s : State) (b : Bracket) (outer : List Bracket) (c : Char) (cs : List Char) :
    Option (State × List Char) :=
  if b.fresh && (c = '-' || c = ']' && b.parts.isEmpty) then
    let next := b.push (.literal ⟨c.toNat, false⟩)
    some ({ s with brackets := { next with fresh := c = '-' } :: outer }, cs)
  else if c = ']' then some (s.closeBracket b outer, cs)
  else if c = '[' then
    match readNamed cs with
    | some (set, rest) => some ({ s with brackets := b.push set :: outer }, rest)
    | none => some ({ s with brackets := { b with fresh := false } :: outer }.openBracket cs)
  else
    match operation? c, cs with
    | some operation, next :: rest =>
      if next = c then some ({ s with brackets := b.operate operation :: outer }, rest)
      else do
        let (set, rest) ← readRange s.spaced (c :: cs)
        return ({ s with brackets := b.push set :: outer }, rest)
    | _, _ => do
      let (set, rest) ← readRange s.spaced (c :: cs)
      return ({ s with brackets := b.push set :: outer }, rest)

/-! ### Whole patterns -/

/-- Reads on outside of brackets, where `c` is next. -/
def inGroup? (s : State) (c : Char) (cs : List Char) : Option (State × List Char) :=
  match c with
  | '(' => s.open? (skip s.spaced cs)
  | ')' => s.leave?.map fun next => (next, cs)
  | '[' => some (s.openBracket cs)
  | '|' => some (s.branch, cs)
  | '?' | '*' | '+' =>
    s.repeated?.map fun next => (next, if cs.head? = some '?' then cs.drop 1 else cs)
  | '\x7b' => none
  | '\\' => (readEscape s.spaced cs).map fun (item, rest) => (s.push item, rest)
  | '.' => some (s.push .dot, cs)
  | '^' | '$' => some (s.push .edge, cs)
  | c => some (s.push (.literal ⟨c.toNat, false⟩), cs)

/-- Reads on where `c` is next. -/
def step? (s : State) (c : Char) (cs : List Char) : Option (State × List Char) :=
  match s.brackets with
  | [] => s.inGroup? c cs
  | b :: outer => s.inBracket? b outer c cs

/-- Reads the rest of a pattern; a step that would not read on is refused. -/
def read? (s : State) (cs : List Char) : Option Pattern :=
  match skip s.spaced cs with
  | [] => s.finish?
  | c :: rest =>
    match s.step? c rest with
    | none => none
    | some (next, left) => if left.length < cs.length then next.read? left else none
termination_by cs.length

end State

/-- **The pattern that a text spells.** -/
def ofText? (cs : List Char) : Option Pattern := State.read? {} cs

end LanguageServer.Pattern
