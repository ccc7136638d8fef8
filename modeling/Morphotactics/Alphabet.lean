import Morphotactics.Chain
import Morphotactics.SortedSet

/-!
# Alphabets

The symbols of more than one character that lexc source uses as units: morpheme boundaries, tags,
flags, and whatever else is declared.  They are collected while networks are built and declared
once, in ascending order.
-/

namespace Morphotactics

/-- A set of symbols. -/
abbrev Alphabet := SortedSet String

namespace Alphabet

/-- The alphabet with the morpheme boundaries and the given symbols, which are escaped first. -/
def declare (a : Alphabet) (declared : List String) : Alphabet :=
  (a.insertAll (declared.map escape)).insertAll
    [Boundary.opening.symbol, Boundary.closing.symbol]

/-- The alphabet with the symbols of an inflected form. -/
def addForm (a : Alphabet) (l : Layout) (r : Inflection) : Alphabet :=
  a.insertAll (l.symbols r)

/-- The alphabet with the flags given. -/
def addFlags (a : Alphabet) (fs : List Flag) : Alphabet :=
  a.insertAll (fs.map Flag.symbol)

/-- Those of the given flags that check something which no symbol of the alphabet sets. -/
def neverSet (a : Alphabet) (fs : List Flag) : List Flag :=
  fs.filter fun f =>
    match f.counterpart with
    | some setter => setter.symbol ∉ a
    | none => false

end Alphabet

end Morphotactics
