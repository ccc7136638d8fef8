import Morphotactics.Tag

/-!
# Sublexicons

The states of a lexicon network.  In lexc source a sublexicon is a named list of entries, and each
entry names the sublexicon where a word goes on.  Here a sublexicon is known by what it is for, and
`Sublexicon.text` gives the name it is written with.  Different sublexicons may be written with the
same name; nothing in the network itself looks at written names.
-/

namespace Morphotactics

/-- What the endings of a word depend on: its paradigm and inflectional class, the identity of its
prefix, and its clause order. -/
structure EndingKey where
  paradigm : String
  inflClass : String
  prefixValue : String
  order : ClauseOrder
deriving DecidableEq, Repr

/-- A sublexicon. -/
inductive Sublexicon where
  /-- The start of all words of a part of speech. -/
  | root (name : String)
  /-- A sublexicon that is defined elsewhere. -/
  | external (name : String)
  /-- The prefixes of a paradigm. -/
  | prefixes (paradigm : String)
  /-- The boundary between prefix and stem. -/
  | prefixBoundary (paradigm : String)
  /-- The place of preverbs and prenouns, shared by all paradigms of a part of speech. -/
  | gate (pos : String)
  /-- The stems of a paradigm. -/
  | stems (paradigm : String)
  /-- The boundary between stem and ending. -/
  | stemBoundary (paradigm inflClass : String)
  /-- The checks of the prefix, one way on for each prefix that the endings know. -/
  | prefixCheck (paradigm inflClass : String)
  /-- The check of the clause order. -/
  | orderCheck (key : EndingKey)
  /-- The endings for one prefix and clause order. -/
  | endings (key : EndingKey)
  /-- The irregular forms of a paradigm. -/
  | irregular (paradigm : String)
  /-- The end of a word. -/
  | terminal
deriving DecidableEq, Repr

/-- The name of an ending key in sublexicon names. -/
def EndingKey.text (k : EndingKey) : String :=
  k.paradigm ++ "_Class=" ++ k.inflClass ++ "_Prefix=" ++ k.prefixValue ++ "_Order=" ++ k.order.text

namespace Sublexicon

/-- The name that a sublexicon is written with. -/
def text : Sublexicon → String
  | root name => name
  | external name => name
  | prefixes p => p ++ "_Prefix"
  | prefixBoundary p => p ++ "_PrefixBoundary"
  | gate pos => pos ++ "Stems"
  | stems p => p ++ "_Stems"
  | stemBoundary p c => p ++ "_Class=" ++ c ++ "_Boundary"
  | prefixCheck p c => p ++ "_Class=" ++ c ++ "_Flags"
  | orderCheck k => k.text
  | endings k => k.text ++ "_Endings"
  | irregular p => p ++ "_Irregular"
  | terminal => "#"

/-- The paradigm of a sublexicon that belongs to exactly one. -/
def paradigm? : Sublexicon → Option String
  | prefixes p | prefixBoundary p | stems p | stemBoundary p _ | prefixCheck p _ | irregular p =>
    some p
  | orderCheck k | endings k => some k.paradigm
  | root _ | external _ | gate _ | terminal => none

/-- The position of the kind of a sublexicon in the order of sublexicons. -/
def rank : Sublexicon → Nat
  | root _ => 0
  | external _ => 1
  | prefixes _ => 2
  | prefixBoundary _ => 3
  | gate _ => 4
  | stems _ => 5
  | stemBoundary _ _ => 6
  | prefixCheck _ _ => 7
  | orderCheck _ => 8
  | endings _ => 9
  | irregular _ => 10
  | terminal => 11

/-- The texts that tell a sublexicon from others of its kind. -/
def fields : Sublexicon → List String
  | root name | external name => [name]
  | prefixes p | prefixBoundary p | stems p | irregular p => [p]
  | gate pos => [pos]
  | stemBoundary p c | prefixCheck p c => [p, c]
  | orderCheck k | endings k => [k.paradigm, k.inflClass, k.prefixValue]
  | terminal => []

/-- The position of the clause order that a sublexicon is for. -/
def orderRank : Sublexicon → Nat
  | orderCheck k | endings k => k.order.rank
  | _ => 0

/-- Sublexicons are ordered by kind, then by their texts, then by clause order. -/
def order (a b : Sublexicon) : Ordering :=
  compareLex (compareOn rank) (compareLex (compareOn fields) (compareOn orderRank)) a b

instance : Ord Sublexicon := ⟨order⟩

instance : Std.TransOrd Sublexicon :=
  inferInstanceAs (Std.TransCmp
    (compareLex (compareOn rank) (compareLex (compareOn fields) (compareOn orderRank))))

end Sublexicon

/-- Clause orders are told apart by their positions. -/
theorem ClauseOrder.rank_inj {a b : ClauseOrder} (h : a.rank = b.rank) : a = b := by
  cases a <;> cases b <;> first | rfl | cases h

/-- Kind, texts and clause order together determine a sublexicon. -/
theorem Sublexicon.eq_of_parts {a b : Sublexicon} (hr : a.rank = b.rank)
    (hf : a.fields = b.fields) (ho : a.orderRank = b.orderRank) : a = b := by
  cases a <;> cases b <;> simp_all [rank, fields, orderRank]
  all_goals
    rename_i k l
    obtain ⟨p, c, v, o⟩ := k
    obtain ⟨p', c', v', o'⟩ := l
    simp_all
    exact ClauseOrder.rank_inj ho

instance : Std.LawfulEqOrd Sublexicon where
  eq_of_compare {a b} h := by
    obtain ⟨hr, h⟩ := compareLex_eq_eq.1 h
    obtain ⟨hf, ho⟩ := compareLex_eq_eq.1 h
    exact Sublexicon.eq_of_parts (Std.LawfulEqOrd.eq_of_compare hr)
      (Std.LawfulEqOrd.eq_of_compare hf) (Std.LawfulEqOrd.eq_of_compare ho)

end Morphotactics
