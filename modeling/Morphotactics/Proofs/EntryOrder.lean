import Morphotactics.Proofs.Growth

/-!
# The order of entries

The entries of a sublexicon are a set that is kept in order, and two entries that come out
equal in that order are one entry of the set.  So the order has to look at all that makes
an entry: were a part of it left out, entries that differ only there would be lost.

`Entry.compare_eq_iff` says that nothing is left out.  What a run of insertions does to a
sublexicon is then known from its members, `Network.entriesOf?_insertAll`, since only one
list with these members is ascending (`Entry.eq_toList_of_pairwise`).
-/

namespace Morphotactics

namespace Entry

variable {a b c : Entry} {o : Ordering}

/-- Entries are equal in their order when all their parts are equal. -/
theorem compare_eq_iff :
    compare a b = .eq ↔
      a.source = b.source ∧ a.upper = b.upper ∧ a.lower = b.lower ∧ a.next = b.next := by
  rw [Std.LawfulEqOrd.compare_eq_iff_eq]
  cases a
  cases b
  simp

/-- Two comparisons in a row with the same outcome give that outcome for the outer two. -/
theorem compare_trans (hab : compare a b = o) (hbc : compare b c = o) : compare a c = o := by
  cases o with
  | lt => exact Std.TransCmp.lt_trans hab hbc
  | eq => exact Std.TransCmp.eq_trans hab hbc
  | gt => exact Std.TransCmp.gt_trans hab hbc

/-- What is seen on the line of an entry comes before the sublexicon that it belongs to. -/
theorem lt_of_precedes (h : a.Precedes b) : compare a b = .lt := by
  have htext : ∀ s t : String, s < t → compare s t = .lt := fun s t hst =>
    compareOfLessAndEq_eq_lt.mpr hst
  have hself : ∀ s t : String, s = t → compare s t = .eq := by
    rintro s t rfl
    exact Std.ReflCmp.compare_self
  rcases h with hlower | ⟨hlower, hupper | ⟨hupper, hnext⟩⟩
  · exact Ordering.then_eq_lt.mpr (Or.inl (htext _ _ hlower))
  · refine Ordering.then_eq_lt.mpr (Or.inr ⟨hself _ _ hlower, ?_⟩)
    exact Ordering.then_eq_lt.mpr (Or.inl (htext _ _ hupper))
  · refine Ordering.then_eq_lt.mpr (Or.inr ⟨hself _ _ hlower, ?_⟩)
    refine Ordering.then_eq_lt.mpr (Or.inr ⟨hself _ _ hupper, ?_⟩)
    exact Ordering.then_eq_lt.mpr (Or.inl hnext)

/-- **One order only.**  A list that has the members of a set and is ascending by what is
seen on lines is the list of the set. -/
theorem eq_toList_of_pairwise {l : List Entry} {s : SortedSet Entry} (hmem : ∀ e, e ∈ l ↔ e ∈ s)
    (hl : l.Pairwise Precedes) : l = s.toList :=
  (hl.imp lt_of_precedes).eq_of_mem_iff s.ascending fun e => hmem e

end Entry

namespace Network

variable {g : Network} {es es' : List Entry} {n : Sublexicon} {kept : SortedSet Entry} {e : Entry}

/-- The entries of a sublexicon after insertions: those that it had, and the inserted ones
that belong to it. -/
theorem mem_of_entriesOf?_insertAll (h : (g.insertAll es).entriesOf? n = some kept) :
    e ∈ kept ↔ (e ∈ es ∧ e.source = n) ∨ ∃ old, g.entriesOf? n = some old ∧ e ∈ old := by
  rw [entriesOf?_insertAll] at h
  split at h
  · obtain rfl := Option.some.inj h
    rw [SortedSet.mem_insertAll, List.mem_filter, decide_eq_true_iff, or_comm]
    refine or_congr_right ?_
    cases g.entriesOf? n <;> simp
  · rename_i hnone
    constructor
    · exact fun he => Or.inr ⟨kept, h, he⟩
    · rintro (⟨he, hn⟩ | ⟨old, hold, he⟩)
      · exact absurd ⟨e, he, hn⟩ hnone
      · rw [Option.some.inj (h.symm.trans hold)]
        exact he

/-- A sublexicon is missing after insertions when it was missing before and no entry belongs
to it. -/
theorem entriesOf?_insertAll_eq_none_iff :
    (g.insertAll es).entriesOf? n = none ↔ g.entriesOf? n = none ∧ ∀ e ∈ es, e.source ≠ n := by
  rw [entriesOf?_insertAll]
  split
  · rename_i hsome
    obtain ⟨e, he, hn⟩ := hsome
    exact iff_of_false (by simp) fun h => h.2 e he hn
  · rename_i hnone
    exact (and_iff_left fun e he hn => hnone ⟨e, he, hn⟩).symm

/-- Lists with the same entries leave a sublexicon with the same ones. -/
theorem entriesOf?_insertAll_congr (h : ∀ e, e ∈ es' ↔ e ∈ es) :
    (g.insertAll es').entriesOf? n = (g.insertAll es).entriesOf? n := by
  have hset : ∀ s : SortedSet Entry, s.insertAll (es'.filter fun e => e.source = n) =
      s.insertAll (es.filter fun e => e.source = n) := by
    intro s
    apply SortedSet.ext
    intro e
    rw [SortedSet.mem_insertAll, SortedSet.mem_insertAll, List.mem_filter, List.mem_filter, h]
  simp only [entriesOf?_insertAll, h, hset]

end Network

/-- **Entries are kept by what they are.**  Two entries come out equal exactly when they have
the same source, the same two sides and the same way on; turning them round turns the
outcome round; and outcomes carry over from two comparisons to the third.

So it is with networks that came about by any operations, and with entries that are
inserted in any number.  A sublexicon is there if it was before or if one of the entries
belongs to it.  It then has these entries and those that it had, all of them and no others,
each once, strictly ascending by surface side, analysis side and way on, and no other list
of them is so.  Inserting them in another order, or some of them again, comes to the
same. -/
theorem entries_kept_by_value :
    ((∀ a b : Entry, compare a b = .eq ↔
        a.source = b.source ∧ a.upper = b.upper ∧ a.lower = b.lower ∧ a.next = b.next) ∧
      (∀ a b : Entry, compare b a = (compare a b).swap) ∧
      ∀ (o : Ordering) (a b c : Entry), compare a b = o → compare b c = o → compare a c = o) ∧
    ∀ g : Network, g.Reachable → ∀ (es : List Entry) (n : Sublexicon),
      ((g.insertAll es).entriesOf? n = none ↔
        g.entriesOf? n = none ∧ ∀ e ∈ es, e.source ≠ n) ∧
      (∀ kept, (g.insertAll es).entriesOf? n = some kept →
        (∀ e, e ∈ kept ↔
          (e ∈ es ∧ e.source = n) ∨ ∃ old, g.entriesOf? n = some old ∧ e ∈ old) ∧
        kept.toList.Nodup ∧ kept.toList.Pairwise Entry.Precedes ∧
        ∀ l : List Entry, (∀ e, e ∈ l ↔ e ∈ kept) → l.Pairwise Entry.Precedes →
          l = kept.toList) ∧
      ∀ es' : List Entry, (∀ e, e ∈ es' ↔ e ∈ es) →
        (g.insertAll es').entriesOf? n = (g.insertAll es).entriesOf? n := by
  refine ⟨⟨fun a b => Entry.compare_eq_iff, fun a b => Std.OrientedCmp.eq_swap,
    fun o a b c => Entry.compare_trans⟩, fun g hg es n =>
    ⟨Network.entriesOf?_insertAll_eq_none_iff, fun kept hkept => ?_,
      fun es' => Network.entriesOf?_insertAll_congr⟩⟩
  have hgrown : (g.insertAll es).WellFormed := hg.wellFormed.insertAll es
  have hfiled : ∀ e ∈ kept, e.source = n := hgrown.filed n kept hkept
  exact ⟨fun e => Network.mem_of_entriesOf?_insertAll hkept, kept.nodup_toList,
    pairwise_precedes hfiled, fun l => Entry.eq_toList_of_pairwise⟩

/-- Three entries that differ in their way on, in their surface side, or only in where they
belong, and of which one comes twice. -/
theorem entries_kept_by_value_of_likes :
    let moos : Entry := .identity (.stems "NA") "moos" (.stemBoundary "NA" "1")
    let g := (Network.ofRoot "Noun").insert moos
    let makwa : Entry := ⟨.stems "NA", "makwa", "makw", .stemBoundary "NA" "1"⟩
    let other : Entry := ⟨.stems "NA", "makwa", "makw", .stemBoundary "NA" "2"⟩
    let elsewhere : Entry := ⟨.stems "NI", "makwa", "makw", .stemBoundary "NA" "1"⟩
    let es := [other, elsewhere, makwa, other]
    g.Reachable ∧ compare makwa moos = .lt ∧ compare makwa elsewhere ≠ .eq ∧
      (∃ kept, (g.insertAll es).entriesOf? (.stems "NA") = some kept ∧
        kept.toList = [makwa, other, moos]) ∧
      (g.insertAll [makwa, other, elsewhere]).entriesOf? (.stems "NI") =
        (g.insertAll es).entriesOf? (.stems "NI") := by
  intro moos g makwa other elsewhere es
  obtain ⟨⟨heq, -, htrans⟩, hinserted⟩ := entries_kept_by_value
  have hg : g.Reachable := .insert (.ofRoot "Noun") moos
  have hlt : compare makwa moos = .lt :=
    htrans .lt makwa other moos (by decide +kernel) (by decide +kernel)
  have hne : compare makwa elsewhere ≠ .eq := fun h => absurd ((heq _ _).mp h).1 (by decide +kernel)
  have hsame : ∀ e, e ∈ [makwa, other, elsewhere] ↔ e ∈ es := by
    intro e
    simp only [es, List.mem_cons, List.not_mem_nil, or_false]
    constructor
    · rintro (h | h | h) <;> simp [h]
    · rintro (h | h | h | h) <;> simp [h]
  refine ⟨hg, hlt, hne, ?_, (hinserted g hg es (.stems "NI")).2.2 _ hsame⟩
  have hold : g.entriesOf? (.stems "NA") = some (SortedSet.ofList [moos]) := by decide +kernel
  obtain ⟨kept, hkept⟩ : ∃ kept, (g.insertAll es).entriesOf? (.stems "NA") = some kept :=
    ⟨_, by rfl⟩
  obtain ⟨hmem, -, -, hunique⟩ := (hinserted g hg es (.stems "NA")).2.1 kept hkept
  have hascending : [makwa, other, moos].Pairwise Entry.Precedes := by
    refine List.pairwise_cons.mpr ⟨?_, List.pairwise_pair.mpr (Or.inl (by decide))⟩
    rintro e he
    rcases List.mem_pair.mp he with rfl | rfl
    · exact Or.inr ⟨rfl, Or.inr ⟨rfl, by decide +kernel⟩⟩
    · exact Or.inl (by decide)
  refine ⟨kept, hkept, (hunique _ (fun e => ?_) hascending).symm⟩
  rw [hmem, hold]
  simp only [Option.some.injEq, exists_eq_left', SortedSet.mem_ofList, es, List.mem_cons,
    List.not_mem_nil, or_false]
  constructor
  · rintro (rfl | rfl | rfl) <;> simp [makwa, other, moos, Entry.identity]
  · rintro (⟨rfl | rfl | rfl | rfl, hn⟩ | rfl)
    · simp
    · exact absurd hn (by decide)
    · simp
    · simp
    · simp

end Morphotactics
