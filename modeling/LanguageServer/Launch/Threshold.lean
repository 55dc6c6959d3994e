import LanguageServer.Decimal.Integer
import LanguageServer.Log

/-! # Thresholds

How much of the log is let through: events up to a level, or none at all. A threshold is spelled as
the word of its level, in any case, or as its rank. -/

namespace LanguageServer

/-- The most that is let through: events up to a level, or none at all. -/
abbrev Threshold := Option Level

namespace Threshold

/-- Whether an event of the given level passes. -/
def admits (t : Threshold) (level : Level) : Bool :=
  match t with
  | none => false
  | some highest => level.rank ≤ highest.rank

/-- The levels, in the order of their ranks. -/
def levels : List Level := [.error, .warn, .info, .debug, .trace]

/-- The threshold with a rank; zero lets nothing through. -/
def ofRank? (rank : Nat) : Option Threshold :=
  if rank = 0 then some none else (levels.find? (·.rank == rank)).map some

/-- The threshold that a word spells. -/
def ofWord? (word : List Char) : Option Threshold :=
  let upper := String.ofList (word.map Char.toUpper)
  if upper = "OFF" then some none else (levels.find? (·.name == upper)).map some

/-- The threshold that a text spells, as a rank or a word. -/
def ofText? (cs : List Char) : Option Threshold :=
  match cs, Decimal.readInteger cs with
  | '-' :: _, _ => none
  | _, .ok rank => ofRank? rank.toNat
  | _, .error _ => ofWord? cs

end Threshold

end LanguageServer
