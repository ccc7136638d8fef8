/-!
# Sorted maps

Finite maps kept as lists of keys with their values, the keys strictly ascending.  Such a list tells
nothing about which key came up when: it is known by what each key has, and `SortedMap.get?_update`
and `SortedMap.get?_erase` say what the operations do to that.
-/

namespace Morphotactics

/-- Looking up in a list of pairs goes by the first pair, and then by the others. -/
theorem lookup_cons {κ α : Type} [DecidableEq κ] (p : κ × α) (l : List (κ × α)) (k : κ) :
    List.lookup k (p :: l) = if k = p.1 then some p.2 else l.lookup k := by
  rw [List.lookup_cons]
  by_cases hk : k = p.1
  · simp [hk]
  · simp [hk, beq_eq_false_iff_ne.2 hk]

/-- A finite map, as the list of its keys in strictly ascending order, each with its value. -/
structure SortedMap (κ α : Type) [Ord κ] where
  toList : List (κ × α)
  ascending : toList.Pairwise fun p q => compare p.1 q.1 = .lt

namespace SortedMap

variable {κ α : Type} [Ord κ]

/-- Gives a key the value that is made from what it had, in its place among ascending keys. -/
def place (k : κ) (f : Option α → α) : List (κ × α) → List (κ × α)
  | [] => [(k, f none)]
  | (j, a) :: rest =>
    match compare k j with
    | .lt => (k, f none) :: (j, a) :: rest
    | .eq => (k, f (some a)) :: rest
    | .gt => (j, a) :: place k f rest

/-- The map without keys. -/
def empty : SortedMap κ α := ⟨[], List.Pairwise.nil⟩

instance [DecidableEq κ] [DecidableEq α] : DecidableEq (SortedMap κ α) := fun m n =>
  decidable_of_iff (m.toList = n.toList) ⟨fun h => by cases m; cases n; cases h; rfl, congrArg _⟩

section Keys

variable [DecidableEq κ]

/-- What a key has. -/
def get? (m : SortedMap κ α) (k : κ) : Option α := m.toList.lookup k

/-- Whether a map has a key. -/
def contains (m : SortedMap κ α) (k : κ) : Bool := (m.get? k).isSome

/-- The map without a key. -/
def erase (m : SortedMap κ α) (k : κ) : SortedMap κ α :=
  ⟨m.toList.filter fun p => p.1 ≠ k, m.ascending.filter _⟩

/-- Looking up after a key was taken out. -/
theorem get?_erase (m : SortedMap κ α) (k j : κ) :
    (m.erase k).get? j = if j = k then none else m.get? j := by
  have hfilter : ∀ l : List (κ × α),
      (l.filter fun p => p.1 ≠ k).lookup j = if j = k then none else l.lookup j := by
    intro l
    induction l with
    | nil => simp
    | cons p l ih =>
      by_cases hp : p.1 = k
      · rw [List.filter_cons_of_neg (by simpa using hp), ih, lookup_cons, hp]
        by_cases hj : j = k
        · simp [hj]
        · simp [hj]
      · rw [List.filter_cons_of_pos (by simpa using hp), lookup_cons, lookup_cons, ih]
        by_cases hj : j = k
        · simp [hj, Ne.symm hp]
        · simp [hj]
  exact hfilter m.toList

end Keys

section Lawful

variable [Std.TransOrd κ] [Std.LawfulEqOrd κ] {k : κ} {f : Option α → α} {l : List (κ × α)}

omit [Std.TransOrd κ] [Std.LawfulEqOrd κ] in
/-- The keys after a value is placed are the old ones and its own. -/
theorem fst_of_mem_place {p : κ × α} (h : p ∈ place k f l) : p.1 = k ∨ ∃ q ∈ l, q.1 = p.1 := by
  induction l with
  | nil =>
    rw [List.mem_singleton.1 h]
    exact Or.inl rfl
  | cons q rest ih =>
    rw [place] at h
    split at h
    · rcases List.mem_cons.1 h with rfl | hold
      · exact Or.inl rfl
      · exact Or.inr ⟨p, hold, rfl⟩
    · rcases List.mem_cons.1 h with rfl | hold
      · exact Or.inl rfl
      · exact Or.inr ⟨p, List.mem_cons_of_mem _ hold, rfl⟩
    · rcases List.mem_cons.1 h with rfl | hrest
      · exact Or.inr ⟨_, List.mem_cons_self, rfl⟩
      · exact (ih hrest).imp_right fun ⟨q', hq', hkey⟩ => ⟨q', List.mem_cons_of_mem _ hq', hkey⟩

/-- Placing a value keeps keys ascending. -/
theorem pairwise_place (h : l.Pairwise fun p q => compare p.1 q.1 = .lt) :
    (place k f l).Pairwise fun p q => compare p.1 q.1 = .lt := by
  induction l with
  | nil => simp [place]
  | cons q rest ih =>
    obtain ⟨hq, hrest⟩ := List.pairwise_cons.1 h
    rw [place]
    split
    · rename_i hlt
      refine List.pairwise_cons.2 ⟨fun p hp => ?_, h⟩
      rcases List.mem_cons.1 hp with rfl | hp
      · exact hlt
      · exact Std.TransCmp.lt_trans hlt (hq p hp)
    · rename_i heq
      rw [Std.LawfulEqOrd.eq_of_compare heq]
      exact List.pairwise_cons.2 ⟨hq, hrest⟩
    · rename_i hgt
      refine List.pairwise_cons.2 ⟨fun p hp => ?_, ih hrest⟩
      rcases fst_of_mem_place hp with hkey | ⟨p', hp', hkey⟩
      · rw [hkey]
        exact Std.OrientedCmp.lt_of_gt hgt
      · rw [← hkey]
        exact hq p' hp'

/-- The map in which a key has the value that is made from what it had. -/
def update (k : κ) (f : Option α → α) (m : SortedMap κ α) : SortedMap κ α :=
  ⟨place k f m.toList, pairwise_place m.ascending⟩

omit [Std.LawfulEqOrd κ] in
/-- A key that comes before another one is not that one. -/
theorem ne_of_lt {j : κ} (h : compare k j = .lt) : k ≠ j := by
  rintro rfl
  rw [Std.ReflOrd.compare_self] at h
  cases h

variable [DecidableEq κ]

omit [Std.LawfulEqOrd κ] in
/-- A key that comes before all others is not among them. -/
theorem lookup_eq_none_of_lt (h : ∀ p ∈ l, compare k p.1 = .lt) : l.lookup k = none := by
  induction l with
  | nil => rfl
  | cons p l ih =>
    rw [lookup_cons, if_neg (ne_of_lt (h p List.mem_cons_self)),
      ih fun q hq => h q (List.mem_cons_of_mem _ hq)]

/-- **Looking up after an update.**  The key has its new value, and all others are as they were. -/
theorem get?_update (m : SortedMap κ α) (k j : κ) (f : Option α → α) :
    (m.update k f).get? j = if j = k then some (f (m.get? k)) else m.get? j := by
  have hplace : ∀ l : List (κ × α), (l.Pairwise fun p q => compare p.1 q.1 = .lt) →
      (place k f l).lookup j = if j = k then some (f (l.lookup k)) else l.lookup j := by
    intro l
    induction l with
    | nil => exact fun _ => lookup_cons _ _ _
    | cons p l ih =>
      intro h
      obtain ⟨hp, hl⟩ := List.pairwise_cons.1 h
      rw [place]
      split
      · rename_i hlt
        have hnone : (p :: l).lookup k = none := by
          refine lookup_eq_none_of_lt fun q hq => ?_
          rcases List.mem_cons.1 hq with rfl | hq
          · exact hlt
          · exact Std.TransCmp.lt_trans hlt (hp q hq)
        rw [lookup_cons, hnone]
      · rename_i heq
        rw [lookup_cons, lookup_cons, lookup_cons, Std.LawfulEqOrd.eq_of_compare heq]
        by_cases hj : j = p.1
        · simp [hj]
        · simp [hj]
      · rename_i hgt
        have hne : k ≠ p.1 := (ne_of_lt (Std.OrientedCmp.lt_of_gt hgt)).symm
        rw [lookup_cons, lookup_cons, lookup_cons, ih hl, if_neg hne]
        by_cases hj : j = p.1
        · simp [hj, Ne.symm hne]
        · simp [hj]
  exact hplace m.toList m.ascending

/-- An update brings its key and no other. -/
theorem contains_update {m : SortedMap κ α} {j : κ} :
    (m.update k f).contains j = true ↔ m.contains j = true ∨ j = k := by
  rw [contains, get?_update, contains]
  by_cases hj : j = k
  · simp [hj]
  · simp [hj]

omit [Std.LawfulEqOrd κ] in
/-- A map holds the pairs that are looked up in it. -/
theorem mem_toList {m : SortedMap κ α} {a : α} : (k, a) ∈ m.toList ↔ m.get? k = some a := by
  have hlist : ∀ l : List (κ × α), (l.Pairwise fun p q => compare p.1 q.1 = .lt) →
      ((k, a) ∈ l ↔ l.lookup k = some a) := by
    intro l
    induction l with
    | nil => simp
    | cons p l ih =>
      intro h
      obtain ⟨hp, hl⟩ := List.pairwise_cons.1 h
      rw [lookup_cons, List.mem_cons]
      split
      · rename_i hk
        have hnone : l.lookup k = none := lookup_eq_none_of_lt fun q hq => hk ▸ hp q hq
        have hout : (k, a) ∉ l := fun hmem => by
          rw [(ih hl).1 hmem] at hnone
          cases hnone
        rw [or_iff_left hout, Prod.ext_iff, Option.some.injEq]
        exact ⟨fun h => h.2.symm, fun h => ⟨hk, h.symm⟩⟩
      · rename_i hk
        rw [← ih hl]
        exact or_iff_right fun heq => hk (congrArg Prod.fst heq)
  exact hlist m.toList m.ascending

end Lawful

end SortedMap

end Morphotactics
