/-! # Spans of characters

A span is the half-open range `[start, stop)` of character offsets that a token or a node covers. A
span whose ends are out of order holds nothing and has width zero. -/

namespace LanguageServer.Script

/-- The characters from `start` up to, and not including, `stop`. -/
structure Span where
  start : Nat
  stop : Nat
  deriving DecidableEq, Repr

namespace Span

/-- The number of characters in the span. -/
def width (s : Span) : Nat := s.stop - s.start

/-- Whether the character at `index` belongs to the span. -/
def holds (s : Span) (index : Nat) : Bool := s.start ≤ index && index < s.stop

/-- Whether the span lies inside `outer`. -/
def within (s outer : Span) : Bool := outer.start ≤ s.start && s.stop ≤ outer.stop

/-- The smallest span that covers both. -/
def join (s t : Span) : Span := ⟨min s.start t.start, max s.stop t.stop⟩

theorem holds_iff {s : Span} {index : Nat} :
    s.holds index = true ↔ s.start ≤ index ∧ index < s.stop := by
  simp [holds]

theorem within_iff {s outer : Span} :
    s.within outer = true ↔ outer.start ≤ s.start ∧ s.stop ≤ outer.stop := by
  simp [within]

end Span

end LanguageServer.Script
