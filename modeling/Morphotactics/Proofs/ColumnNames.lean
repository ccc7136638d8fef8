import Morphotactics.Proofs.Ascending
import Morphotactics.Table

/-!
# Columns by their names

A table is read by positions, which are looked up once for all records.  This file says
what the positions stand for.  `under?` gives the cell of a record by the name of its
column, going along header and record at the same time, and `map_cell_lastIndexOf?` says
that looking up the position first and the cell then comes to the same.

Variants are found the other way round: not by asking for each number whether there is a
column for it, but by reading numbers off the names of the columns.  A number is read back
from its column (`variantIndex?_surfaceColumn`), so that no variant is missed and none is
found twice (`variantIndices_eq_filter`).
-/

namespace Morphotactics.Table

/-! ## Numbers of variants -/

/-- The name of a surface column, character by character. -/
theorem toList_surfaceColumn (i : Nat) :
    (surfaceColumn i).toList = "Form".toList ++ (Nat.toDigits 10 i ++ "Surface".toList) := by
  rw [surfaceColumn, String.toList_append, String.toList_append, List.append_assoc,
    Nat.toString_eq_repr, Nat.toList_repr]

/-- A surface column is known by its number. -/
theorem variantIndex?_surfaceColumn (i : Nat) : variantIndex? (surfaceColumn i) = some i := by
  have hdrop : (surfaceColumn i).toList.drop 4 = Nat.toDigits 10 i ++ "Surface".toList := by
    rw [toList_surfaceColumn]
    exact List.drop_left' (by decide)
  have hdigits : ((surfaceColumn i).toList.drop 4).takeWhile Char.isDigit = Nat.toDigits 10 i := by
    have hrest : "Surface".toList.takeWhile Char.isDigit = [] := by decide
    rw [hdrop, List.takeWhile_append_of_pos, hrest, List.append_nil]
    exact fun c hc => Nat.isDigit_of_mem_toDigits (by decide) (by decide) hc
  have hnumber : (Nat.toDigits 10 i).foldl (fun n c => 10 * n + (c.toNat - 48)) 0 = i :=
    Nat.ofDigitChars_ten_toDigits
  unfold variantIndex?
  dsimp only
  rw [hdigits, hnumber, if_pos rfl]

/-- A number is read off the name of its surface column, and off no other name. -/
theorem variantIndex?_eq_some_iff {column : String} {i : Nat} :
    variantIndex? column = some i ↔ column = surfaceColumn i := by
  constructor
  · intro h
    unfold variantIndex? at h
    dsimp only at h
    split at h
    · rename_i hname
      rw [← hname, Option.some.inj h]
    · cases h
  · rintro rfl
    exact variantIndex?_surfaceColumn i

/-- The numbers that are read off a header are those of its surface columns below the bound. -/
theorem mem_variantIndices {t : Table} {bound i : Nat} :
    i ∈ t.variantIndices bound ↔ i < bound ∧ surfaceColumn i ∈ t.header := by
  rw [variantIndices, SortedSet.mem_toList, SortedSet.mem_ofList, List.mem_filter,
    List.mem_filterMap, decide_eq_true_iff]
  simp only [variantIndex?_eq_some_iff, exists_eq_right]
  exact and_comm

/-- **No variant is missed**: the numbers below the bound that have a surface column, each
once and in ascending order. -/
theorem variantIndices_eq_filter (t : Table) (bound : Nat) :
    t.variantIndices bound = (List.range bound).filter fun i => surfaceColumn i ∈ t.header := by
  have hrange : ((List.range bound).filter fun i => surfaceColumn i ∈ t.header).Pairwise
      fun i j => compare i j = .lt := by
    refine (List.Pairwise.filter _ List.pairwise_lt_range).imp fun hlt => ?_
    exact Nat.compare_eq_lt.mpr hlt
  refine (SortedSet.ascending _).eq_of_mem_iff hrange fun i => ?_
  refine (mem_variantIndices (t := t)).trans ?_
  rw [List.mem_filter, List.mem_range, decide_eq_true_iff]

/-! ## Positions of columns -/

/-- The last position in a list is the last one after its head, or else that of the head. -/
theorem lastIndexOf?_cons (s h : String) (l : List String) :
    lastIndexOf? s (h :: l) =
      ((lastIndexOf? s l).map (· + 1)).or (if h = s then some 0 else none) := by
  have hrest : ((l.zipIdx 1).filter fun p => p.1 == s).getLast?.map Prod.snd =
      (lastIndexOf? s l).map (· + 1) := by
    rw [List.zipIdx_succ, List.filter_map, List.getLast?_map, lastIndexOf?, Option.map_map,
      Option.map_map]
    rfl
  unfold lastIndexOf? at hrest ⊢
  rw [List.zipIdx_cons, List.filter_cons, ← hrest]
  by_cases hs : h = s
  · have hpos : ((h, 0).1 == s) = true := by simp [hs]
    rw [if_pos hpos, if_pos hs, List.getLast?_cons]
    cases ((l.zipIdx 1).filter fun p => p.1 == s).getLast? <;> rfl
  · have hneg : ¬((h, 0).1 == s) = true := by simp [hs]
    rw [if_neg hneg, if_neg hs, Option.or_none]

/-- A text has a last position in a list when it is in the list. -/
theorem isSome_lastIndexOf? {s : String} {l : List String} :
    (lastIndexOf? s l).isSome ↔ s ∈ l := by
  induction l with
  | nil => simp [lastIndexOf?]
  | cons h l ih =>
      rw [lastIndexOf?_cons, Option.isSome_or, Option.isSome_map, Bool.or_eq_true, ih,
        List.mem_cons, or_comm]
      by_cases hs : h = s
      · simp [hs]
      · simp [hs, Ne.symm hs]

/-- What a record has under a name: the cell, cut of blanks, under the last header that is
the name once it is cut of blanks itself.  A header past the end of the record has an empty
cell, and where no header is the name there is no cell. -/
def under? : List String → List String → String → Option String
  | [], _, _ => none
  | h :: header, cells, name =>
    (under? header cells.tail name).or
      (if Text.trim h = name then some (Text.trim (cells.headD "")) else none)

/-- **Cells by position and by name.** -/
theorem map_cell_lastIndexOf? (header : List String) (r : Csv.Record) (name : String) :
    (lastIndexOf? name (header.map Text.trim)).map (cell r) = under? header r.cells name := by
  obtain ⟨line, cells⟩ := r
  induction header generalizing cells with
  | nil => rfl
  | cons h header ih =>
      have hshift : cell ⟨line, cells⟩ ∘ (· + 1) = cell ⟨line, cells.tail⟩ := by
        funext i
        rw [Function.comp_apply, cell, cell, rawCell, rawCell, List.getElem?_tail]
      rw [List.map_cons, lastIndexOf?_cons, Option.map_or, Option.map_map, hshift, ih, under?]
      congr 1
      split
      · cases cells <;> rfl
      · rfl

end Morphotactics.Table
