/-! # Sets of characters as ranges of code points

A property of characters that a standard fixes by a table is a list of closed ranges of code points.
`Ranges.mem_iff` reads the table back: a character belongs to it when some range holds its code
point. -/

namespace LanguageServer.Text

/-- A set of characters: closed ranges of code points, in increasing order. -/
abbrev Ranges := List (Nat × Nat)

namespace Ranges

/-- Whether the code point of `c` lies in one of the ranges. -/
def mem (table : Ranges) (c : Char) : Bool :=
  table.any fun range => range.1 ≤ c.toNat && c.toNat ≤ range.2

theorem mem_iff {table : Ranges} {c : Char} :
    table.mem c = true ↔ ∃ range ∈ table, range.1 ≤ c.toNat ∧ c.toNat ≤ range.2 := by
  simp [mem]

/-- The ranges are in increasing order and do not meet. -/
def Increasing (table : Ranges) : Prop :=
  table.Pairwise fun low high => low.2 < high.1

instance (table : Ranges) : Decidable table.Increasing := by
  unfold Increasing; infer_instance

end Ranges

end LanguageServer.Text
