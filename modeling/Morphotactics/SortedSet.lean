/-!
# Sorted sets

Finite sets kept as strictly ascending lists.  A set has one such list, whatever was inserted when;
`SortedSet.mem_insert` and `SortedSet.mem_union` say what the operations do to the members.
-/

namespace Morphotactics

/-- What the steps of a fold bring about was there before, or one of them brings it. -/
theorem foldl_iff_of_step_iff {α β : Type} (step : β → α → β) (P : β → Prop) {Q : α → Prop}
    (hstep : ∀ b a, P (step b a) ↔ P b ∨ Q a) {b : β} {l : List α} :
    P (l.foldl step b) ↔ P b ∨ ∃ a ∈ l, Q a := by
  induction l generalizing b with
  | nil => simp
  | cons a l ih =>
    rw [List.foldl_cons, ih, hstep, or_assoc]
    simp only [List.mem_cons, exists_eq_or_imp]

/-- A finite set, as the list of its members in strictly ascending order. -/
structure SortedSet (α : Type) [Ord α] where
  toList : List α
  ascending : toList.Pairwise fun a b => compare a b = .lt

namespace SortedSet

/-- Puts an element in its place in an ascending list, unless it is already there. -/
def place {α : Type} [Ord α] (a : α) : List α → List α
  | [] => [a]
  | b :: rest =>
    match compare a b with
    | .lt => a :: b :: rest
    | .eq => b :: rest
    | .gt => b :: place a rest

section Lawful

variable {α : Type} [Ord α] [Std.TransOrd α] [Std.LawfulEqOrd α]

omit [Std.TransOrd α] in
/-- Placing an element adds it to the members and no other. -/
theorem mem_place {a x : α} {l : List α} : x ∈ place a l ↔ x = a ∨ x ∈ l := by
  induction l with
  | nil => simp [place]
  | cons b rest ih =>
    rw [place]
    split
    · simp
    · rename_i h
      rw [Std.LawfulEqOrd.eq_of_compare h]
      simp
    · simp only [List.mem_cons, ih]
      exact or_left_comm

/-- Placing an element keeps a list ascending. -/
theorem pairwise_place {a : α} {l : List α} (h : l.Pairwise fun a b => compare a b = .lt) :
    (place a l).Pairwise fun a b => compare a b = .lt := by
  induction l with
  | nil => simp [place]
  | cons b rest ih =>
    obtain ⟨hb, hrest⟩ := List.pairwise_cons.1 h
    rw [place]
    split
    · rename_i hab
      refine List.pairwise_cons.2 ⟨fun c hc => ?_, h⟩
      rcases List.mem_cons.1 hc with rfl | hc
      · exact hab
      · exact Std.TransCmp.lt_trans hab (hb c hc)
    · exact h
    · rename_i hab
      refine List.pairwise_cons.2 ⟨fun c hc => ?_, ih hrest⟩
      rcases mem_place.1 hc with rfl | hc
      · exact Std.OrientedCmp.lt_of_gt hab
      · exact hb c hc

end Lawful

/-- The set without members. -/
def empty {α : Type} [Ord α] : SortedSet α := ⟨[], List.Pairwise.nil⟩

instance {α : Type} [Ord α] : Inhabited (SortedSet α) := ⟨empty⟩

instance {α : Type} [Ord α] : Membership α (SortedSet α) where
  mem s a := a ∈ s.toList

instance {α : Type} [Ord α] [DecidableEq α] (a : α) (s : SortedSet α) : Decidable (a ∈ s) :=
  inferInstanceAs (Decidable (a ∈ s.toList))

instance {α : Type} [Ord α] [DecidableEq α] : DecidableEq (SortedSet α) := fun s t =>
  decidable_of_iff (s.toList = t.toList) ⟨fun h => by cases s; cases t; cases h; rfl, congrArg _⟩

/-- The number of members. -/
def size {α : Type} [Ord α] (s : SortedSet α) : Nat := s.toList.length

/-- No member of a set is listed twice. -/
theorem nodup_toList {α : Type} [Ord α] [Std.ReflOrd α] (s : SortedSet α) :
    s.toList.Nodup :=
  s.ascending.imp fun {a b} hlt heq => by
    have hsame : compare a b = .eq := heq ▸ Std.ReflOrd.compare_self
    rw [hsame] at hlt
    cases hlt

variable {α : Type} [Ord α] [Std.TransOrd α] [Std.LawfulEqOrd α]

/-- A set with one more member. -/
def insert (a : α) (s : SortedSet α) : SortedSet α :=
  ⟨place a s.toList, pairwise_place s.ascending⟩

/-- A set with all elements of a list added. -/
def insertAll (s : SortedSet α) (l : List α) : SortedSet α :=
  l.foldl (fun s a => s.insert a) s

/-- The set of the elements of a list. -/
def ofList (l : List α) : SortedSet α := empty.insertAll l

/-- The members of either set. -/
def union (s t : SortedSet α) : SortedSet α := s.insertAll t.toList

omit [Std.TransOrd α] [Std.LawfulEqOrd α] in
/-- The list of a set has the members of the set. -/
theorem mem_toList {a : α} {s : SortedSet α} : a ∈ s.toList ↔ a ∈ s := Iff.rfl

omit [Std.TransOrd α] [Std.LawfulEqOrd α] in
/-- The empty set has no members. -/
@[simp] theorem not_mem_empty {a : α} : a ∉ (empty : SortedSet α) := List.not_mem_nil

/-- The members after an insertion. -/
theorem mem_insert {a x : α} {s : SortedSet α} : x ∈ s.insert a ↔ x = a ∨ x ∈ s :=
  mem_place

/-- The members after the elements of a list were added. -/
theorem mem_insertAll {x : α} {l : List α} {s : SortedSet α} :
    x ∈ s.insertAll l ↔ x ∈ s ∨ x ∈ l := by
  have hstep : ∀ (s : SortedSet α) (a : α), x ∈ s.insert a ↔ x ∈ s ∨ x = a := fun s a =>
    mem_insert.trans or_comm
  exact (foldl_iff_of_step_iff _ (x ∈ ·) hstep).trans (or_congr_right exists_eq_right')

/-- The members of a union. -/
theorem mem_union {x : α} {s t : SortedSet α} : x ∈ s.union t ↔ x ∈ s ∨ x ∈ t :=
  mem_insertAll

/-- A set made from a list has the elements of the list. -/
theorem mem_ofList {x : α} {l : List α} : x ∈ ofList l ↔ x ∈ l := by
  rw [ofList, mem_insertAll]
  exact or_iff_right (List.not_mem_nil)

end SortedSet

end Morphotactics
