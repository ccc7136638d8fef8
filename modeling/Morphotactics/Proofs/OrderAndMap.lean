import Mathlib.Data.List.Nodup
import Morphotactics.Network
import Morphotactics.Proofs.Ascending

/-!
# Order and map

A network writes its sublexicons down twice: in the order in which they came up, and as the keys of
a map.  Nothing in its type says that the two agree.  Where they did not, a sublexicon would be
passed over when the network is gone through, or come up twice.

`Network.InStep` says that they agree.  A new network is in step, and an insertion keeps a network
in step, as it writes a sublexicon to the order just when the map does not have it.  In step, a
network is the list of its sublexicons with their entries, and insertions into it are insertions
into that list: `Network.InStep.parts_insert` is the step of this simulation.
-/

namespace Morphotactics

namespace Network

variable {g h : Network} {n : Sublexicon} {es : SortedSet Entry} {e x : Entry}

/-! ## The map -/

/-- The network has a sublexicon when that can be looked up. -/
theorem defines_iff : g.defines n = true ↔ ∃ es, g.entriesOf? n = some es :=
  Option.isSome_iff_exists

/-- A new network has its root, and no entries there. -/
theorem entriesOf?_ofRoot (name : String) (n : Sublexicon) :
    (ofRoot name).entriesOf? n = if n = .root name then some SortedSet.empty else none :=
  SortedMap.get?_update _ _ _ _

/-- Looking up after an insertion: the sublexicon of the entry has one entry more, and all others
are as they were. -/
theorem entriesOf?_insert (g : Network) (e : Entry) (n : Sublexicon) :
    (g.insert e).entriesOf? n =
      if n = e.source then some (((g.entriesOf? n).getD SortedSet.empty).insert e)
      else g.entriesOf? n := by
  refine (SortedMap.get?_update _ _ _ _).trans ?_
  by_cases hn : n = e.source
  · rw [if_pos hn, if_pos hn, hn]
    rfl
  · rw [if_neg hn, if_neg hn]
    rfl

/-- An insertion defines the sublexicon of its entry and no other. -/
theorem defines_insert : (g.insert e).defines n = true ↔ n = e.source ∨ g.defines n = true := by
  rw [defines_iff, defines_iff, entriesOf?_insert]
  by_cases hn : n = e.source <;> simp [hn]

/-- The entries of a network are those that its sublexicons have. -/
theorem mem_entries : e ∈ g.entries ↔ ∃ n es, g.entriesOf? n = some es ∧ e ∈ es := by
  rw [entries, List.mem_flatMap]
  constructor
  · rintro ⟨⟨n, es⟩, hpart, he⟩
    exact ⟨n, es, SortedMap.mem_toList.mp hpart, he⟩
  · rintro ⟨n, es, hes, he⟩
    exact ⟨(n, es), SortedMap.mem_toList.mpr hes, he⟩

/-- An insertion adds its entry to the entries and no other. -/
theorem mem_entries_insert : x ∈ (g.insert e).entries ↔ x = e ∨ x ∈ g.entries := by
  simp only [mem_entries, entriesOf?_insert]
  constructor
  · rintro ⟨n, es, hes, hx⟩
    split at hes
    · obtain rfl := Option.some.inj hes
      refine (SortedSet.mem_insert.mp hx).imp_right fun hold => ?_
      cases hn : g.entriesOf? n with
      | none =>
          rw [hn] at hold
          exact absurd hold SortedSet.not_mem_empty
      | some es =>
          rw [hn] at hold
          exact ⟨n, es, hn, hold⟩
    · exact Or.inr ⟨n, es, hes, hx⟩
  · rintro (rfl | ⟨n, es, hes, hx⟩)
    · exact ⟨x.source, _, if_pos rfl, SortedSet.mem_insert.mpr (Or.inl rfl)⟩
    · by_cases hn : n = e.source
      · refine ⟨n, _, if_pos hn, SortedSet.mem_insert.mpr (Or.inr ?_)⟩
        rw [hes]
        exact hx
      · exact ⟨n, es, (if_neg hn).trans hes, hx⟩

/-- Going through a network finds the sublexicons of the order that can be looked up. -/
theorem mem_parts : (n, es) ∈ g.parts ↔ n ∈ g.names ∧ g.entriesOf? n = some es := by
  rw [parts, List.mem_filterMap]
  constructor
  · rintro ⟨m, hm, hpart⟩
    obtain ⟨es', hes, heq⟩ := Option.map_eq_some_iff.mp hpart
    cases heq
    exact ⟨hm, hes⟩
  · rintro ⟨hn, hes⟩
    exact ⟨n, hn, by rw [hes, Option.map_some]⟩

/-! ## Networks in step -/

/-- Order and map are in step: the order names the keys of the map, each once. -/
structure InStep (g : Network) : Prop where
  nodup : g.names.Nodup
  agree : ∀ n, n ∈ g.names ↔ g.defines n = true

/-- A new network is in step: both have the root and nothing else. -/
theorem inStep_ofRoot (name : String) : (ofRoot name).InStep where
  nodup := List.nodup_singleton _
  agree n := by
    rw [defines_iff, entriesOf?_ofRoot, ofRoot, List.mem_singleton]
    by_cases hn : n = .root name <;> simp [hn]

namespace InStep

/-- **Insertion step.**  The order is written to just when the map does not have the sublexicon, so
that they stay in step. -/
theorem insert (hg : g.InStep) (e : Entry) : (g.insert e).InStep where
  nodup := by
    rw [Network.insert]
    split
    · exact hg.nodup
    · rename_i hnew
      refine List.nodup_append.mpr ⟨hg.nodup, List.nodup_singleton _, fun n hn m hm hnm => hnew ?_⟩
      rw [← List.mem_singleton.mp hm, ← hnm]
      exact (hg.agree n).mp hn
  agree n := by
    rw [defines_insert, ← hg.agree, Network.insert]
    split
    · rename_i hold
      exact (or_iff_right_of_imp fun hn => hn ▸ (hg.agree e.source).mpr hold).symm
    · rw [List.mem_append, List.mem_singleton, or_comm]

/-- A sublexicon of the order can be looked up. -/
theorem exists_of_mem_names (hg : g.InStep) (hn : n ∈ g.names) :
    ∃ es, g.entriesOf? n = some es :=
  defines_iff.mp ((hg.agree n).mp hn)

/-- What can be looked up stands in the order. -/
theorem mem_names_of_eq_some (hg : g.InStep) (hes : g.entriesOf? n = some es) : n ∈ g.names :=
  (hg.agree n).mpr (defines_iff.mpr ⟨es, hes⟩)

/-- Looking a sublexicon up and going through the network find the same. -/
theorem entriesOf?_eq_some_iff (hg : g.InStep) : g.entriesOf? n = some es ↔ (n, es) ∈ g.parts :=
  ⟨fun hes => mem_parts.mpr ⟨hg.mem_names_of_eq_some hes, hes⟩, fun hp => (mem_parts.mp hp).2⟩

/-- **Nothing is passed over.**  Going through a network in step comes by every sublexicon of the
order. -/
theorem map_fst_parts (hg : g.InStep) : g.parts.map Prod.fst = g.names := by
  have hfound : ∀ n ∈ g.names,
      ((g.entriesOf? n).map fun es => (n, es)).map Prod.fst = some n := by
    intro n hn
    obtain ⟨es, hes⟩ := hg.exists_of_mem_names hn
    rw [hes, Option.map_some, Option.map_some]
  rw [parts, List.map_filterMap, List.filterMap_congr hfound, List.filterMap_some]

/-- Out of step, a sublexicon is passed over. -/
example : (⟨"Noun", [.root "Noun", .stems "NA"], (ofRoot "Noun").lexicons⟩ : Network).parts =
    [(.root "Noun", SortedSet.empty)] := by
  decide +kernel

/-- In step, going through a network comes by nothing twice. -/
theorem nodup_parts (hg : g.InStep) : g.parts.Nodup :=
  List.Nodup.of_map _ (hg.map_fst_parts.symm ▸ hg.nodup)

/-- **The map has the same.**  What going through a network in step comes by is what the map has,
each sublexicon once. -/
theorem parts_perm_toList (hg : g.InStep) : g.parts.Perm g.lexicons.toList := by
  refine (List.perm_ext_iff_of_nodup hg.nodup_parts ?_).mpr ?_
  · refine g.lexicons.ascending.imp fun {p q} hlt (heq : p = q) => ?_
    rw [heq] at hlt
    exact irrefl_compare_lt.irrefl q.1 hlt
  · rintro ⟨n, es⟩
    rw [SortedMap.mem_toList]
    exact hg.entriesOf?_eq_some_iff.symm

/-- Networks in step are equal when going through them finds the same. -/
theorem eq_of_parts (hg : g.InStep) (hh : h.InStep) (hroot : g.rootName = h.rootName)
    (hparts : g.parts = h.parts) : g = h := by
  have hnames : g.names = h.names := by rw [← hg.map_fst_parts, ← hh.map_fst_parts, hparts]
  have hlexicons : g.lexicons = h.lexicons := by
    refine SortedMap.ext fun n => Option.ext fun es => ?_
    exact hg.entriesOf?_eq_some_iff.trans (hparts ▸ hh.entriesOf?_eq_some_iff.symm)
  cases g
  cases h
  cases hroot
  cases hnames
  cases hlexicons
  rfl

end InStep

end Network

/-! ## One list instead of two records -/

/-- Adds an entry to the sublexicon it belongs to in a list of sublexicons with their entries.  The
sublexicon is appended if it is new. -/
def insertInto (e : Entry) : List (Sublexicon × SortedSet Entry) →
    List (Sublexicon × SortedSet Entry)
  | [] => [(e.source, SortedSet.empty.insert e)]
  | (n, es) :: rest =>
    if n = e.source then (n, es.insert e) :: rest else (n, es) :: insertInto e rest

/-- Adds entries one after the other to a list of sublexicons with their entries. -/
def insertAllInto (es : List Entry) (ps : List (Sublexicon × SortedSet Entry)) :
    List (Sublexicon × SortedSet Entry) :=
  es.foldl (fun ps e => insertInto e ps) ps

/-- An entry of a sublexicon that is not in the list opens it at the end. -/
theorem insertInto_of_not_mem {e : Entry} {ps : List (Sublexicon × SortedSet Entry)}
    (h : e.source ∉ ps.map Prod.fst) :
    insertInto e ps = ps ++ [(e.source, SortedSet.empty.insert e)] := by
  induction ps with
  | nil => rfl
  | cons p ps ih =>
      rw [List.map_cons, List.mem_cons, not_or] at h
      rw [insertInto, if_neg (Ne.symm h.1), ih h.2, List.cons_append]

/-- An entry of a sublexicon that is in the list changes that one only. -/
theorem insertInto_of_mem {e : Entry} {ps : List (Sublexicon × SortedSet Entry)}
    (hnodup : (ps.map Prod.fst).Nodup) (h : e.source ∈ ps.map Prod.fst) :
    insertInto e ps = ps.map fun p => (p.1, if p.1 = e.source then p.2.insert e else p.2) := by
  induction ps with
  | nil => cases h
  | cons p ps ih =>
      obtain ⟨hp, hps⟩ := List.nodup_cons.mp hnodup
      rw [insertInto, List.map_cons]
      by_cases hsource : p.1 = e.source
      · have hrest : ∀ q ∈ ps, (q.1, if q.1 = e.source then q.2.insert e else q.2) = q := by
          intro q hq
          have hne : q.1 ≠ e.source := fun heq =>
            hp (hsource ▸ heq ▸ List.mem_map_of_mem hq)
          rw [if_neg hne]
        rw [if_pos hsource, if_pos hsource, List.map_congr_left hrest, List.map_id']
      · have hin : e.source ∈ ps.map Prod.fst :=
          (List.mem_cons.mp h).resolve_left (Ne.symm hsource)
        rw [if_neg hsource, if_neg hsource, ih hps hin]

/-- **Simulation step.**  Going through a network in step after an insertion finds what an insertion
into one list of sublexicons with their entries leaves there. -/
theorem Network.InStep.parts_insert {g : Network} (hg : g.InStep) (e : Entry) :
    (g.insert e).parts = insertInto e g.parts := by
  have hlookup : ∀ n, n ≠ e.source → (g.insert e).entriesOf? n = g.entriesOf? n := fun n hn =>
    (entriesOf?_insert g e n).trans (if_neg hn)
  have hnames : (g.insert e).names =
      if g.defines e.source then g.names else g.names ++ [e.source] := rfl
  by_cases hdefines : g.defines e.source = true
  · have hmem : e.source ∈ g.parts.map Prod.fst := by
      rw [hg.map_fst_parts]
      exact (hg.agree _).mpr hdefines
    have hnodup : (g.parts.map Prod.fst).Nodup := hg.map_fst_parts.symm ▸ hg.nodup
    rw [insertInto_of_mem hnodup hmem, parts, parts, hnames, if_pos hdefines, List.map_filterMap]
    refine List.filterMap_congr fun n hn => ?_
    obtain ⟨es, hes⟩ := hg.exists_of_mem_names hn
    rw [entriesOf?_insert, hes]
    by_cases hsource : n = e.source <;> simp [hsource]
  · have hnone : g.entriesOf? e.source = none :=
      Option.eq_none_iff_forall_ne_some.mpr fun es hes => hdefines (defines_iff.mpr ⟨es, hes⟩)
    have hnew : e.source ∉ g.names := fun hmem => hdefines ((hg.agree _).mp hmem)
    have hlast : (g.insert e).entriesOf? e.source = some (SortedSet.empty.insert e) := by
      rw [entriesOf?_insert, if_pos rfl, hnone, Option.getD_none]
    have hrest : ∀ n ∈ g.names, ((g.insert e).entriesOf? n).map (fun es => (n, es)) =
        (g.entriesOf? n).map fun es => (n, es) := fun n hn => by
      rw [hlookup n fun heq => hnew (heq ▸ hn)]
    rw [insertInto_of_not_mem (hg.map_fst_parts.symm ▸ hnew), parts, hnames, if_neg hdefines,
      List.filterMap_append, List.filterMap_congr hrest]
    simp [hlast, parts]

end Morphotactics
