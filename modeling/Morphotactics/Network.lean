import Morphotactics.Chain
import Morphotactics.SortedMap
import Morphotactics.SortedSet

/-!
# Lexicon networks

A network is what one file of lexc source describes: sublexicons and their entries.  Entries of a
sublexicon form a set, so that forms which share a prefix, a stem or an ending share its entry.

A network keeps two records: the sublexicons in the order in which they came up, the root first, and
a map from sublexicons to their entries.  An insertion looks at the map, and where a sublexicon is
new to it writes in both.  What is written as lexc source goes by the order and looks each
sublexicon up, `Network.parts`; what is counted or asked of all entries goes by the map.
-/

namespace Morphotactics

/-- A lexicon network: the name of its root, its sublexicons in the order in which they came up, and
the entries of each. -/
structure Network where
  rootName : String
  names : List Sublexicon
  lexicons : SortedMap Sublexicon (SortedSet Entry)
deriving DecidableEq

/-- The flags that stand on a side of an entry. -/
def Entry.flags (e : Entry) : List Flag :=
  [e.upper, e.lower].filterMap fun side => (Flag.parse side).toOption

namespace Network

/-- The root sublexicon. -/
def root (g : Network) : Sublexicon := .root g.rootName

/-- The network that has only a root, without entries. -/
def ofRoot (name : String) : Network :=
  ⟨name, [.root name], SortedMap.empty.update (.root name) fun _ => SortedSet.empty⟩

/-- The entries of a sublexicon, if the network has it. -/
def entriesOf? (g : Network) (n : Sublexicon) : Option (SortedSet Entry) := g.lexicons.get? n

/-- Whether the network has a sublexicon. -/
def defines (g : Network) (n : Sublexicon) : Bool := g.lexicons.contains n

/-- The sublexicons with their entries, in the order in which they came up.  A sublexicon without a
place in the map is passed over. -/
def parts (g : Network) : List (Sublexicon × SortedSet Entry) :=
  g.names.filterMap fun n => (g.entriesOf? n).map fun es => (n, es)

/-- All entries, sublexicon by sublexicon, as the map has them. -/
def entries (g : Network) : List Entry := g.lexicons.toList.flatMap fun p => p.2.toList

/-- Whether the network has an entry. -/
def has (g : Network) (e : Entry) : Bool :=
  match g.entriesOf? e.source with
  | some es => e ∈ es
  | none => false

/-- The number of sublexicons. -/
def size (g : Network) : Nat := g.names.length

/-- The number of entries. -/
def entryCount (g : Network) : Nat :=
  g.lexicons.toList.foldl (fun count p => count + p.2.size) 0

/-- The network with one more entry.  Its sublexicon is put last in the order if the map does not
have it. -/
def insert (g : Network) (e : Entry) : Network :=
  { g with
    names := if g.defines e.source then g.names else g.names ++ [e.source]
    lexicons := g.lexicons.update e.source fun es => (es.getD SortedSet.empty).insert e }

/-- The network with more entries. -/
def insertAll (g : Network) (es : List Entry) : Network := es.foldl insert g

/-- The root entry that leads into a chain. -/
def rootEntry (g : Network) (c : Chain) : Entry :=
  .identity g.root c.flag.symbol c.first.source

/-- The network with a chain and the root entry that leads into it. -/
def addChain (g : Network) (c : Chain) : Network := g.insertAll (g.rootEntry c :: c.entries)

/-- The network with more chains. -/
def extend (g : Network) (cs : List Chain) : Network := cs.foldl addChain g

/-- An entry of another network as an entry of this one: what belongs to the other root belongs to
this root. -/
def adopt (g other : Network) (e : Entry) : Entry :=
  if e.source = other.root then { e with source := g.root } else e

/-- The network with the entries of those sublexicons of another one that are named.  They are
taken out of its map one after the other, and names that find nothing there are passed over. -/
def takeOver (other : Network) : List Sublexicon → SortedMap Sublexicon (SortedSet Entry) →
    Network → Network
  | [], _, g => g
  | n :: ns, lexicons, g =>
    match lexicons.get? n with
    | some es => takeOver other ns (lexicons.erase n) (g.insertAll (es.toList.map (g.adopt other)))
    | none => takeOver other ns lexicons g

/-- The network with all sublexicons of another one, in the order in which they came up there. -/
def merge (g other : Network) : Network := takeOver other other.names other.lexicons g

/-- Whether a way on is missing from the network.  The end of the word and sublexicons that are
defined elsewhere never are. -/
def lacks (g : Network) : Sublexicon → Bool
  | .terminal => false
  | .external _ => false
  | n => !g.defines n

/-- The sublexicons that entries lead to and that the network lacks. -/
def dangling (g : Network) : SortedSet Sublexicon :=
  SortedSet.ofList ((g.entries.map Entry.next).filter g.lacks)

/-- All flags of the network. -/
def flags (g : Network) : SortedSet Flag := SortedSet.ofList (g.entries.flatMap Entry.flags)

end Network

end Morphotactics
