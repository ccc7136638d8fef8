import Mathlib.Data.List.Sort
import Morphotactics.SortedMap
import Morphotactics.SortedSet

/-!
# Ascending lists

An ascending list is known by its members, and by nothing else.  So sets with the same
members are equal, and maps are equal in which every key has the same.
-/

namespace Morphotactics

variable {α κ : Type}

/-- Nothing comes before itself. -/
instance irrefl_compare_lt [Ord α] [Std.ReflOrd α] :
    Std.Irrefl fun a b : α => compare a b = .lt where
  irrefl a h := by
    rw [Std.ReflOrd.compare_self] at h
    cases h

/-- No two come before each other. -/
instance antisymm_compare_lt [Ord α] [Std.TransOrd α] :
    Std.Antisymm fun a b : α => compare a b = .lt where
  antisymm a _ hab hba := absurd (Std.TransCmp.lt_trans hab hba) (irrefl_compare_lt.irrefl a)

/-- Sets with the same members are equal. -/
theorem SortedSet.ext [Ord α] [Std.TransOrd α] {s t : SortedSet α} (h : ∀ x, x ∈ s ↔ x ∈ t) :
    s = t := by
  have hlist : s.toList = t.toList := s.ascending.eq_of_mem_iff t.ascending h
  cases s
  cases t
  cases hlist
  rfl

/-- Maps in which every key has the same are equal. -/
theorem SortedMap.ext [Ord κ] [Std.TransOrd κ] [DecidableEq κ] {m n : SortedMap κ α}
    (h : ∀ k, m.get? k = n.get? k) : m = n := by
  have hirrefl : Std.Irrefl fun p q : κ × α => compare p.1 q.1 = .lt :=
    ⟨fun p => irrefl_compare_lt.irrefl p.1⟩
  have hantisymm : Std.Antisymm fun p q : κ × α => compare p.1 q.1 = .lt :=
    ⟨fun p q hpq hqp => absurd (Std.TransCmp.lt_trans hpq hqp) (irrefl_compare_lt.irrefl p.1)⟩
  have hmem : ∀ p, p ∈ m.toList ↔ p ∈ n.toList := by
    rintro ⟨k, a⟩
    rw [mem_toList, mem_toList, h]
  have hlist : m.toList = n.toList := m.ascending.eq_of_mem_iff n.ascending hmem
  cases m
  cases n
  cases hlist
  rfl

end Morphotactics
