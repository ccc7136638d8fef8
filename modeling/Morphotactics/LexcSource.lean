import Morphotactics.Alphabet
import Morphotactics.Banner
import Morphotactics.Network

/-!
# Lexc source

The text of alphabets and networks.  The source of a network holds only its sublexicons, so that the
sources of several networks can follow one root source, which declares the alphabet of all of them
and leads into each.
-/

namespace Morphotactics

/-- A text of lines, each with its line end. -/
def ofLines (ls : List String) : String := String.join (ls.map (· ++ "\n"))

namespace Alphabet

/-- The lines that declare an alphabet: a heading, all symbols on one line, and a blank line. -/
def lines (a : Alphabet) : List String :=
  ["Multichar_Symbols", String.intercalate " " a.toList, ""]

/-- The declaration of an alphabet. -/
def declaration (a : Alphabet) : String := ofLines a.lines

/-- The root source: the alphabet, and a sublexicon that leads into each of the given roots. -/
def rootSource (a : Alphabet) (roots : List String) : String :=
  ofLines (a.lines ++ ["LEXICON Root"] ++ roots.map (· ++ " ;") ++ [""])

end Alphabet

namespace Network

/-- The banner of a sublexicon and the blank line after it, or nothing where it has no banner. -/
def bannerLines (n : Sublexicon) : List String :=
  match Banner.lines n with
  | .ok ls => ls ++ [""]
  | .error _ => []

/-- The lines of one sublexicon: its banner, its name, its entries in ascending order, and a blank
line. -/
def partLines (p : Sublexicon × SortedSet Entry) : List String :=
  bannerLines p.1 ++ ["LEXICON " ++ p.1.text] ++ p.2.toList.map Entry.line ++ [""]

/-- The source of a network: its sublexicons in the order in which they came up. -/
def source (g : Network) : String := ofLines (g.parts.flatMap partLines)

end Network

end Morphotactics
