/-! # Patterns

A pattern describes texts by alternatives of sequences of items: characters, sets of characters,
edges of the text, repetitions and groups. A set of characters stands in brackets; it is made of
characters, ranges and further sets, and of sets that an operation combines. `Pattern.depth` says
how deep a pattern is nested. -/

namespace LanguageServer

namespace Pattern

/-- A character in a pattern, and whether it is written as a byte. -/
structure Literal where
  code : Nat
  isByte : Bool := false
  deriving DecidableEq, Repr

/-- How two sets are combined. -/
inductive SetOperation
  | intersection
  | difference
  | symmetricDifference
  deriving DecidableEq, Repr

/-- A set of characters. -/
inductive CharSet
  | empty
  | literal (c : Literal)
  | range (first last : Literal)
  | named (negated : Bool)
  | shorthand (negated : Bool)
  | bracketed (negated : Bool) (inner : CharSet)
  | union (parts : List CharSet)
  | combined (operation : SetOperation) (left right : CharSet)

namespace CharSet

/-- The set that some parts make up. -/
def ofParts : List CharSet → CharSet
  | [] => empty
  | [part] => part
  | parts => union parts

mutual

/-- How deep brackets, unions and operations are nested. -/
def depth : CharSet → Nat
  | bracketed _ inner => inner.depth + 1
  | union parts => depthAll parts + 1
  | combined _ left right => max left.depth right.depth + 1
  | empty | literal _ | range _ _ | named _ | shorthand _ => 0

/-- The depth of the deepest set of a list. -/
def depthAll : List CharSet → Nat
  | [] => 0
  | part :: parts => max part.depth (depthAll parts)

end

end CharSet

end Pattern

/-- A pattern. -/
inductive Pattern
  | empty
  | switch (items : List Char)
  | literal (c : Pattern.Literal)
  | dot
  | edge
  | boundary
  | shorthand (negated : Bool)
  | charSet (set : Pattern.CharSet)
  | repetition (item : Pattern)
  | group (switches : List Char) (inner : Pattern)
  | sequence (items : List Pattern)
  | alternatives (branches : List Pattern)

namespace Pattern

/-- The pattern that some items make up, one after the other. -/
def ofItems : List Pattern → Pattern
  | [] => empty
  | [item] => item
  | items => sequence items

/-- The pattern that some branches make up. -/
def ofBranches : List Pattern → Pattern
  | [branch] => branch
  | branches => alternatives branches

mutual

/-- How deep a pattern is nested. -/
def depth : Pattern → Nat
  | charSet set => set.depth
  | repetition item => item.depth + 1
  | group _ inner => inner.depth + 1
  | sequence items => depthAll items + 1
  | alternatives branches => depthAll branches + 1
  | empty | switch _ | literal _ | dot | edge | boundary | shorthand _ => 0

/-- The depth of the deepest pattern of a list. -/
def depthAll : List Pattern → Nat
  | [] => 0
  | item :: items => max item.depth (depthAll items)

end

/-- The greatest depth that a pattern may have. -/
def maxDepth : Nat := 250

end Pattern

end LanguageServer
