import Morphotactics.Sublexicon

/-!
# Entries

The arrows of a lexicon network.  An entry of a sublexicon has an upper side, which is a piece of
analysis, a lower side, which is a piece of surface text, and the sublexicon where the word goes on.
-/

namespace Morphotactics

/-- The empty text of lexc source. -/
def epsilon : String := "0"

/-- An entry of a sublexicon. -/
structure Entry where
  /-- The sublexicon that the entry belongs to. -/
  source : Sublexicon
  /-- The analysis side. -/
  upper : String
  /-- The surface side. -/
  lower : String
  /-- The sublexicon where the word goes on. -/
  next : Sublexicon
deriving DecidableEq, Repr

namespace Entry

/-- An entry with the same symbol on both sides. -/
def identity (source : Sublexicon) (symbol : String) (next : Sublexicon) : Entry :=
  ⟨source, symbol, symbol, next⟩

/-- The line that an entry is written as.  Two equal sides are written once, and not at all when
they are empty. -/
def line (e : Entry) : String :=
  if e.upper = e.lower then
    if e.upper = epsilon then e.next.text ++ " ;" else e.upper ++ " " ++ e.next.text ++ " ;"
  else e.upper ++ ":" ++ e.lower ++ " " ++ e.next.text ++ " ;"

/-- Entries are ordered by surface side, then by analysis side, then by where they lead, then by
where they belong. -/
def order (a b : Entry) : Ordering :=
  compareLex (compareOn lower) (compareLex (compareOn upper)
    (compareLex (compareOn next) (compareOn source))) a b

instance : Ord Entry := ⟨order⟩

instance : Std.TransOrd Entry :=
  inferInstanceAs (Std.TransCmp (compareLex (compareOn lower) (compareLex (compareOn upper)
    (compareLex (compareOn next) (compareOn source)))))

instance : Std.LawfulEqOrd Entry where
  eq_of_compare {a b} h := by
    obtain ⟨hl, h⟩ := compareLex_eq_eq.1 h
    obtain ⟨hu, h⟩ := compareLex_eq_eq.1 h
    obtain ⟨hn, hs⟩ := compareLex_eq_eq.1 h
    have hl : a.lower = b.lower := Std.LawfulEqOrd.eq_of_compare hl
    have hu : a.upper = b.upper := Std.LawfulEqOrd.eq_of_compare hu
    have hn : a.next = b.next := Std.LawfulEqOrd.eq_of_compare hn
    have hs : a.source = b.source := Std.LawfulEqOrd.eq_of_compare hs
    cases a; cases b; cases hl; cases hu; cases hn; cases hs; rfl

end Entry

end Morphotactics
