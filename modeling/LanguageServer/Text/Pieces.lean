/-! # Pieces of a text

A text, of characters or of bytes, cut at every separator, and pieces put together again.
`joined_pieces` says that cutting loses nothing, `not_mem_of_mem_pieces` that no separator is left
inside a piece, and `pieces_joined` that such pieces are found again. -/

namespace LanguageServer.Text

variable {α : Type} [DecidableEq α]

/-- The pieces of a text between its separators; there is always one. -/
def pieces (separator : α) : List α → List (List α)
  | [] => [[]]
  | c :: cs =>
    if c = separator then [] :: pieces separator cs
    else
      match pieces separator cs with
      | [] => [[c]]
      | piece :: rest => (c :: piece) :: rest

/-- Pieces with separators between them. -/
def joined {α : Type} (separator : α) : List (List α) → List α
  | [] => []
  | [piece] => piece
  | piece :: next :: rest => piece ++ separator :: joined separator (next :: rest)

theorem pieces_ne_nil (separator : α) (cs : List α) : pieces separator cs ≠ [] := by
  cases cs with
  | nil => simp [pieces]
  | cons c cs =>
    rw [pieces]
    split
    · simp
    · split <;> simp

/-- **No piece holds a separator.** -/
theorem not_mem_of_mem_pieces {separator : α} {cs piece : List α}
    (h : piece ∈ pieces separator cs) : separator ∉ piece := by
  induction cs generalizing piece with
  | nil =>
    rw [pieces, List.mem_singleton] at h
    simp [h]
  | cons c cs ih =>
    rw [pieces] at h
    split at h
    · rcases List.mem_cons.mp h with rfl | h
      · simp
      · exact ih h
    · rename_i hc
      split at h
      · rename_i empty
        exact absurd empty (pieces_ne_nil separator cs)
      · rename_i first rest cut
        rw [cut] at ih
        rcases List.mem_cons.mp h with rfl | h
        · have := ih List.mem_cons_self
          simp [this, Ne.symm hc]
        · exact ih (List.mem_cons_of_mem _ h)

/-- **The pieces put together give the text.** -/
theorem joined_pieces (separator : α) (cs : List α) :
    joined separator (pieces separator cs) = cs := by
  induction cs with
  | nil => rfl
  | cons c cs ih =>
    rw [pieces]
    match h : pieces separator cs with
    | [] => exact absurd h (pieces_ne_nil separator cs)
    | piece :: rest =>
      rw [h] at ih
      by_cases hc : c = separator
      · simp [hc, joined, ih]
      · cases rest <;> simp_all [joined]

end LanguageServer.Text
