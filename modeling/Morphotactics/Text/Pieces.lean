/-!
# Pieces of a text

Cutting a text at every occurrence of a separating character.
-/

namespace Morphotactics.Text

/-- The pieces of a list of characters between the separators; there is always at least one. -/
def pieceChars (separator : Char) : List Char → List (List Char)
  | [] => [[]]
  | c :: rest =>
    if c = separator then [] :: pieceChars separator rest
    else
      match pieceChars separator rest with
      | [] => [[c]]
      | piece :: more => (c :: piece) :: more

/-- The pieces of a text between the separators. -/
def pieces (separator : Char) (s : String) : List String :=
  (pieceChars separator s.toList).map String.ofList

/-- There is always a piece. -/
theorem pieceChars_ne_nil (separator : Char) (cs : List Char) : pieceChars separator cs ≠ [] := by
  cases cs with
  | nil => simp [pieceChars]
  | cons c rest =>
    rw [pieceChars]
    split
    · simp
    · split <;> simp

end Morphotactics.Text
