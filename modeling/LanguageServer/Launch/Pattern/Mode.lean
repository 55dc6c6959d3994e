import LanguageServer.Launch.Pattern.Basic

/-! # Modes of patterns

A pattern is over characters or over bytes, and may match letters in either case; it may switch its
mode on the way. Over characters nothing is supported that needs a table of them: shorthands,
boundaries of words, and letters in either case. Over bytes nothing is supported that may match a
byte beyond ASCII alone. `Pattern.modeAfter?` goes through a pattern and says which mode it ends in,
if all of it is supported. -/

namespace LanguageServer.Pattern

/-- How a part of a pattern is meant: whether letters match in either case, and whether it is over
characters, or else over bytes. -/
structure Mode where
  ignoreCase : Bool := false
  unicode : Bool := true
  deriving DecidableEq, Repr

/-- Whether something is on after the given characters, which switch on and, after a dash, off. -/
def switched (items : List Char) (c : Char) (before : Bool) : Bool :=
  if (items.takeWhile (· ≠ '-')).contains c then true
  else if items.contains c then false
  else before

/-- The mode after the given characters. -/
def Mode.switch (m : Mode) (items : List Char) : Mode :=
  ⟨switched items 'i' m.ignoreCase, switched items 'u' m.unicode⟩

/-! ### Characters -/

/-- Whether the character is supported outside of sets; over bytes it must not be a byte beyond
ASCII, but any character will do. -/
def Mode.supportsLiteral (m : Mode) (c : Literal) : Bool :=
  if m.unicode then !m.ignoreCase else !c.isByte || c.code < 0x80

/-! ### Sets -/

namespace CharSet

mutual

/-- Whether the set is supported over characters. -/
def isInCharacters (ignoreCase : Bool) : CharSet → Bool
  | empty => true
  | literal _ | range _ _ | named _ => !ignoreCase
  | shorthand _ => false
  | bracketed _ inner => inner.isInCharacters ignoreCase
  | union parts => areInCharacters ignoreCase parts
  | combined _ left right => left.isInCharacters ignoreCase && right.isInCharacters ignoreCase

/-- Whether all sets are supported over characters. -/
def areInCharacters (ignoreCase : Bool) : List CharSet → Bool
  | [] => true
  | part :: parts => part.isInCharacters ignoreCase && areInCharacters ignoreCase parts

end

mutual

/-- Whether the set is supported over bytes: its characters are ASCII, and nothing in it is negated,
which would take in all bytes beyond ASCII. -/
def isInBytes : CharSet → Bool
  | empty => true
  | literal c => c.code < 0x80
  | range first last => first.code < 0x80 && last.code < 0x80
  | named negated | shorthand negated => !negated
  | bracketed negated inner => !negated && inner.isInBytes
  | union parts => areInBytes parts
  | combined _ left right => left.isInBytes && right.isInBytes

/-- Whether all sets are supported over bytes. -/
def areInBytes : List CharSet → Bool
  | [] => true
  | part :: parts => part.isInBytes && areInBytes parts

end

end CharSet

/-! ### Patterns -/

mutual

/-- The mode after a pattern that starts in the mode `m`; absent if the pattern is not supported. -/
def modeAfter? (m : Mode) : Pattern → Option Mode
  | empty | edge => some m
  | switch items => some (m.switch items)
  | literal c => if m.supportsLiteral c then some m else none
  | dot => if m.unicode then some m else none
  | boundary => if m.unicode then none else some m
  | shorthand negated => if m.unicode || negated then none else some m
  | charSet set =>
    if m.unicode then
      if set.isInCharacters m.ignoreCase then some m else none
    else if set.isInBytes then some m else none
  | repetition item => modeAfter? m item
  | group switches inner => (modeAfter? (m.switch switches) inner).map fun _ => m
  | sequence items => modeAfterAll? m items
  | alternatives branches => modeAfterAll? m branches

/-- The mode after patterns one behind the other. -/
def modeAfterAll? (m : Mode) : List Pattern → Option Mode
  | [] => some m
  | item :: items =>
    match modeAfter? m item with
    | some next => modeAfterAll? next items
    | none => none

end

/-- **Whether a pattern is supported.** -/
def isSupported (p : Pattern) : Bool := p.depth ≤ maxDepth && (p.modeAfter? {}).isSome

end LanguageServer.Pattern
