import Mathlib.Data.List.Dedup
import Morphotactics.Proofs.AddedWords

/-!
# What the summary of a dictionary counts

A summary counts words: each word of a dictionary is added or skipped, and counts once
as one of them.  A network counts entries, and an entry that it has already is not there
twice.  So a word that was added need not make a network larger: another word may have
brought its entry before, and so may the tables.

`Network.entryCount_insertAll` says by how much insertions make a network larger, and
`words_counted` what that means for the words that a summary gives as added.
-/

namespace Morphotactics

namespace Network

variable {g : Network}

/-- The entries of a list that a network lacks, each once. -/
def lackedEntries (g : Network) (es : List Entry) : List Entry :=
  (es.filter fun e => e ∉ g.entries).dedup

/-- What a network lacks of a list are the entries of the list that it does not have. -/
theorem mem_lackedEntries {es : List Entry} {e : Entry} :
    e ∈ g.lackedEntries es ↔ e ∈ es ∧ e ∉ g.entries := by
  rw [lackedEntries, List.mem_dedup, List.mem_filter, decide_eq_true_iff]

/-- A network lacks each entry of a list anew when they are all different and it has none
of them, and only then. -/
theorem length_lackedEntries_eq_iff {es : List Entry} :
    (g.lackedEntries es).length = es.length ↔ es.Nodup ∧ ∀ e ∈ es, e ∉ g.entries := by
  constructor
  · intro h
    have hsub : (g.lackedEntries es).Sublist es :=
      (List.dedup_sublist _).trans List.filter_sublist
    have hall : g.lackedEntries es = es := hsub.eq_of_length h
    exact ⟨hall ▸ List.nodup_dedup _, fun e he => (mem_lackedEntries.mp (hall ▸ he)).2⟩
  · rintro ⟨hnodup, hnew⟩
    have hkept : (es.filter fun e => e ∉ g.entries) = es :=
      List.filter_eq_self.mpr fun e he => decide_eq_true (hnew e he)
    rw [lackedEntries, hkept, hnodup.dedup]

/-- No entry of a well-formed network stands twice: not in a sublexicon, which is a set,
and not in two, as it belongs to one. -/
theorem WellFormed.nodup_entries (hg : g.WellFormed) : g.entries.Nodup := by
  have hfiled : ∀ p ∈ g.lexicons.toList, ∀ e ∈ p.2, e.source = p.1 := fun p hp =>
    hg.filed p.1 p.2 (SortedMap.mem_toList.mp hp)
  refine List.nodup_flatMap.mpr ⟨fun p _ => p.2.nodup_toList, ?_⟩
  refine g.lexicons.ascending.imp_of_mem fun {p q} hp hq hlt e hep heq => ?_
  exact SortedMap.ne_of_lt hlt ((hfiled p hp e hep).symm.trans (hfiled q hq e heq))

/-- Counting sublexicon by sublexicon comes to the number of all entries. -/
theorem entryCount_eq_length (g : Network) : g.entryCount = g.entries.length := by
  have hcount : ∀ (ps : List (Sublexicon × SortedSet Entry)) (n : Nat),
      ps.foldl (fun count p => count + p.2.size) n =
        n + (ps.flatMap fun p => p.2.toList).length := by
    intro ps
    induction ps with
    | nil => intro n; rfl
    | cons p ps ih =>
        intro n
        rw [List.foldl_cons, ih, List.flatMap_cons, List.length_append, SortedSet.size]
        omega
  rw [entryCount, hcount, entries, Nat.zero_add]

/-- **Insertions make a network larger by what it lacked.** -/
theorem WellFormed.entryCount_insertAll (hg : g.WellFormed) (es : List Entry) :
    (g.insertAll es).entryCount = g.entryCount + (g.lackedEntries es).length := by
  -- neither list repeats an entry, so that having the same ones they have the same length
  have hnodup : (g.entries ++ g.lackedEntries es).Nodup :=
    List.nodup_append.mpr ⟨hg.nodup_entries, List.nodup_dedup _, fun e he e' he' heq =>
      (mem_lackedEntries.mp he').2 (heq ▸ he)⟩
  have hperm : (g.insertAll es).entries.Perm (g.entries ++ g.lackedEntries es) := by
    refine (List.perm_ext_iff_of_nodup (hg.insertAll es).nodup_entries hnodup).mpr fun e => ?_
    rw [mem_entries_insertAll, List.mem_append, mem_lackedEntries]
    tauto
  rw [entryCount_eq_length, entryCount_eq_length, hperm.length_eq, List.length_append]

end Network

namespace Dictionary

variable {classify : Classifier} {g : Network}

/-- The words that are taken bring one entry each. -/
theorem length_stemEntries (classify : Classifier) (g : Network)
    (rs : List (Nat × DictionaryRecord)) :
    (stemEntries classify g rs).length = rs.countP fun r => (stemEntry classify g r.2).isOk := by
  rw [stemEntries, List.length_filterMap_eq_countP]
  refine congrArg (List.countP · rs) (funext fun r => ?_)
  cases stemEntry classify g r.2 <;> rfl

end Dictionary

/-- **What a summary counts.**  Add the words of a dictionary, classified in any way, to a
network that came about by any operations.  All words are checked, and each is added or
skipped: it is added if its class is known and the network had the sublexicons for it, and
skipped otherwise.  The number of entries of the network grows by the entries of the added
words that it lacked, each counted once.  So it grows by the number of added words exactly
when these bring different entries, and none that was there. -/
theorem words_counted {g : Network} (hg : g.Reachable) (d : Dictionary) (classify : Classifier) :
    let a := d.addTo classify g
    let s := d.summary a
    let stems := Dictionary.stemEntries classify g d.records
    (s.checked = d.records.length ∧ s.checked = s.added + s.skipped) ∧
      (s.added = d.records.countP fun r => (Dictionary.stemEntry classify g r.2).isOk) ∧
      a.network.entryCount = g.entryCount + (g.lackedEntries stems).length ∧
      (a.network.entryCount = g.entryCount + s.added ↔
        stems.Nodup ∧ ∀ e ∈ stems, e ∉ g.entries) := by
  intro a s stems
  have ha : a = ⟨g.insertAll stems, stems.length,
      Dictionary.refusals d.name classify g d.records⟩ := d.addTo_eq classify g
  have hs : s = ⟨d.records.length, stems.length,
      (Dictionary.refusals d.name classify g d.records).length⟩ := by
    rw [show s = d.summary a from rfl, ha]
    rfl
  have hentries : a.network.entryCount = g.entryCount + (g.lackedEntries stems).length := by
    rw [ha, hg.wellFormed.entryCount_insertAll]
  have htotal := Dictionary.length_stemEntries_add_refusals d.name classify g d.records
  refine ⟨⟨by rw [hs], by rw [hs]; exact htotal.symm⟩, ?_, hentries, ?_⟩
  · rw [hs]
    exact Dictionary.length_stemEntries classify g d.records
  · rw [hentries, hs, Nat.add_left_cancel_iff, Network.length_lackedEntries_eq_iff]

/-- A network that has a stem and a stem boundary, and a dictionary of two different words
for it and one that it has no place for. -/
theorem words_counted_of_different_words :
    let g := ((Network.ofRoot "Noun").insert
      (.identity (.stems "NA") "amik" (.stemBoundary "NA" "1"))).insert
      (.identity (.stemBoundary "NA" "1") "%>%>" .terminal)
    let makwa : DictionaryRecord := ⟨"makwa", "makw", some "1", some "NA", none⟩
    let moos : DictionaryRecord := ⟨" moos", "moos", some "1", some "NA ", none⟩
    let jiimaan : DictionaryRecord := ⟨"jiimaan", "jiimaan", some "1", some "NI", none⟩
    let d : Dictionary := ⟨"nouns.csv", [(2, makwa), (3, jiimaan), (4, moos)]⟩
    let a := d.addTo Classifier.none g
    g.Reachable ∧ d.summary a = ⟨3, 2, 1⟩ ∧
      a.network.entryCount = g.entryCount + (d.summary a).added := by
  intro g makwa moos jiimaan d a
  have hg : g.Reachable := .insert (.insert (.ofRoot "Noun") _) _
  have hcounted := words_counted hg d Classifier.none
  exact ⟨hg, by decide +kernel, hcounted.2.2.2.mpr (by decide +kernel)⟩

/-- One word of a dictionary stands on two lines.  It is added twice, but its entry comes in
once. -/
theorem repeated_word_is_counted_twice :
    let g := ((Network.ofRoot "Noun").insert
      (.identity (.stems "NA") "amik" (.stemBoundary "NA" "1"))).insert
      (.identity (.stemBoundary "NA" "1") "%>%>" .terminal)
    let makwa : DictionaryRecord := ⟨"makwa", "makw", some "1", some "NA", none⟩
    let d : Dictionary := ⟨"nouns.csv", [(2, makwa), (3, makwa)]⟩
    let a := d.addTo Classifier.none g
    g.Reachable ∧ d.summary a = ⟨2, 2, 0⟩ ∧ a.network.entryCount = g.entryCount + 1 ∧
      a.network.entryCount ≠ g.entryCount + (d.summary a).added := by
  intro g makwa d a
  exact ⟨.insert (.insert (.ofRoot "Noun") _) _, by decide +kernel⟩

end Morphotactics
