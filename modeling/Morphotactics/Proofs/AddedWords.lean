import Morphotactics.Proofs.Alternatives
import Morphotactics.Proofs.Growth

/-!
# Words in any order

A dictionary is added word by word, and each word is looked at against the network
that the words before it have left.  All the same the order of the words does not
matter, nor does adding them again: a word is taken for the sublexicons that are
there, and no word brings one.  So a network takes the same stems from a dictionary in
whichever order, and `Network.insertAll` puts stems into sets.

The other point is what stays as it was: the sublexicons and their order, the entries
of all sublexicons but the stems, and what dangles.
-/

namespace Morphotactics

namespace Network

variable {g : Network} {es fs : List Entry} {n : Sublexicon}

/-- A sublexicon is as it was after insertions into others. -/
theorem entriesOf?_insertAll_of_ne (h : ∀ e ∈ es, e.source ≠ n) :
    (g.insertAll es).entriesOf? n = g.entriesOf? n := by
  rw [entriesOf?_insertAll, if_neg fun ⟨e, he, hn⟩ => h e he hn]

/-- Entries that bring no sublexicon may be inserted in any order, and however often:
only which ones they are matters. -/
theorem WellFormed.insertAll_congr (hg : g.WellFormed) (hes : ∀ e ∈ es, e.source ∈ g.names)
    (hmem : ∀ e, e ∈ g.entries ∨ e ∈ es ↔ e ∈ g.entries ∨ e ∈ fs) :
    g.insertAll es = g.insertAll fs := by
  have hfs : ∀ e ∈ fs, e.source ∈ g.names := by
    intro e he
    rcases (hmem e).mpr (Or.inr he) with hold | hes'
    · exact hg.source_mem_names hold
    · exact hes e hes'
  refine (hg.insertAll es).eq_of_entries (hg.insertAll fs) ?_ ?_ fun e => ?_
  · rw [rootName_insertAll, rootName_insertAll]
  · rw [(insertAll_of_defines fun e he => (hg.agree _).mp (hes e he)).1,
      (insertAll_of_defines fun e he => (hg.agree _).mp (hfs e he)).1]
  · rw [mem_entries_insertAll, mem_entries_insertAll, hmem]

/-- Stems for which a network has the place leave nothing dangling, and nothing that
dangled is mended by them. -/
theorem InStep.dangling_insertAll_of_takesStem (hg : g.InStep) (hes : ∀ e ∈ es, g.TakesStem e) :
    (g.insertAll es).dangling = g.dangling := by
  have hnames : (g.insertAll es).names = g.names :=
    (insertAll_of_defines fun e he => (hes e he).defines_source).1
  apply SortedSet.ext
  intro n
  rw [(hg.insertAll es).mem_dangling, hg.mem_dangling, hnames]
  constructor
  · rintro ⟨⟨e, he, rfl⟩, hown, hlacks⟩
    rcases mem_entries_insertAll.mp he with hold | hnew
    · exact ⟨⟨e, hold, rfl⟩, hown, hlacks⟩
    · obtain ⟨p, c, -, -, -, hnext⟩ := hes e hnew
      exact absurd ((hg.agree _).mpr hnext) hlacks
  · rintro ⟨⟨e, he, hnext⟩, hown, hlacks⟩
    exact ⟨⟨e, mem_entries_insertAll.mpr (Or.inl he), hnext⟩, hown, hlacks⟩

end Network

namespace Dictionary

variable {classify : Classifier} {g h : Network} {rs rs' : List (Nat × DictionaryRecord)}

/-- Networks with the same sublexicons take the same stems. -/
theorem stemEntries_congr (hdefines : h.defines = g.defines) (classify : Classifier)
    (rs : List (Nat × DictionaryRecord)) :
    stemEntries classify h rs = stemEntries classify g rs := by
  simp only [stemEntries, stemEntry_congr hdefines]

/-- Reordering words reorders their stems.  The lines that the words stand on do not
matter. -/
theorem stemEntries_perm (hperm : (rs.map Prod.snd).Perm (rs'.map Prod.snd)) :
    (stemEntries classify g rs).Perm (stemEntries classify g rs') := by
  have hwords : ∀ rs : List (Nat × DictionaryRecord), stemEntries classify g rs =
      (rs.map Prod.snd).filterMap fun r => (stemEntry classify g r).toOption := by
    intro rs
    rw [List.filterMap_map]
    rfl
  rw [hwords, hwords]
  exact hperm.filterMap _

/-- Every word is taken or refused. -/
theorem length_stemEntries_add_refusals (name : String) (classify : Classifier) (g : Network)
    (rs : List (Nat × DictionaryRecord)) :
    (stemEntries classify g rs).length + (refusals name classify g rs).length = rs.length := by
  induction rs with
  | nil => rfl
  | cons r rs ih =>
      rw [List.length_cons, ← ih]
      cases hr : stemEntry classify g r.2 with
      | error reason => simp [stemEntries, refusals, hr, Except.toOption, Nat.add_assoc]
      | ok e => simp [stemEntries, refusals, hr, Except.toOption, Nat.add_right_comm]

/-- The sublexicons that the entries of words belong to are there before. -/
theorem defines_of_mem_stemEntries {e : Entry} (he : e ∈ stemEntries classify g rs) :
    g.defines e.source = true :=
  (takesStem_of_mem_stemEntries he).defines_source

/-- A dictionary brings no sublexicon, and leaves the order as it is. -/
theorem addTo_defines (d : Dictionary) (classify : Classifier) (g : Network) :
    (d.addTo classify g).network.names = g.names ∧
      (d.addTo classify g).network.defines = g.defines := by
  rw [addTo_eq]
  exact Network.insertAll_of_defines fun e he => defines_of_mem_stemEntries he

variable {d d' : Dictionary}

/-- **Any order.**  The same words in another order give the same network. -/
theorem network_addTo_perm (hg : g.WellFormed) (classify : Classifier)
    (hperm : (d.records.map Prod.snd).Perm (d'.records.map Prod.snd)) :
    (d'.addTo classify g).network = (d.addTo classify g).network := by
  rw [addTo_eq, addTo_eq]
  refine (hg.insertAll_congr (fun e he => ?_) fun e => ?_).symm
  · exact (hg.agree _).mpr (defines_of_mem_stemEntries he)
  · rw [(stemEntries_perm hperm).mem_iff]

/-- The summary of the same words in another order is the same. -/
theorem summary_addTo_perm (classify : Classifier) (g : Network)
    (hperm : (d.records.map Prod.snd).Perm (d'.records.map Prod.snd)) :
    d'.summary (d'.addTo classify g) = d.summary (d.addTo classify g) := by
  have hchecked : d.records.length = d'.records.length := by
    simpa using hperm.length_eq
  have hadded : (stemEntries classify g d.records).length =
      (stemEntries classify g d'.records).length := (stemEntries_perm hperm).length_eq
  have htotal := length_stemEntries_add_refusals d.name classify g d.records
  have htotal' := length_stemEntries_add_refusals d'.name classify g d'.records
  have hskipped : (refusals d.name classify g d.records).length =
      (refusals d'.name classify g d'.records).length := by omega
  rw [summary, summary, addTo_eq, addTo_eq, hchecked, hadded, hskipped]

/-- **Once is enough.**  Adding the same words again changes nothing. -/
theorem network_addTo_twice (hg : g.WellFormed) (d : Dictionary) (classify : Classifier) :
    (d.addTo classify (d.addTo classify g).network).network = (d.addTo classify g).network := by
  -- the words bring the same entries as before, and these stand in the network already
  have hstems := stemEntries_congr (addTo_defines d classify g).2 classify d.records
  have hwell : (d.addTo classify g).network.WellFormed := by
    rw [addTo_eq]
    exact hg.insertAll _
  have hthere : ∀ e ∈ stemEntries classify g d.records,
      e ∈ (d.addTo classify g).network.entries := by
    intro e he
    rw [addTo_eq]
    exact Network.mem_entries_insertAll.mpr (Or.inr he)
  calc (d.addTo classify (d.addTo classify g).network).network
      = (d.addTo classify g).network.insertAll (stemEntries classify g d.records) := by
        rw [d.addTo_eq classify (d.addTo classify g).network, hstems]
    _ = (d.addTo classify g).network := hwell.insertAll_eq_self_iff.mpr hthere

end Dictionary

/-- **A dictionary only adds stems.**  Add the words of a dictionary, classified in any
way, to a network that came about by any operations.  The root, the sublexicons and
their order stay; every sublexicon that does not hold stems keeps its entries, and the
same ways on dangle.  What comes in are the entries of the words that the network as it
was has the place for, and each leads from the stems of a paradigm to a stem boundary of
that paradigm, both of which were there.  The words may come in any order, and on any
lines, without a difference to the network or the summary; and once they have been
added, adding them again changes nothing. -/
theorem words_add_stems_only {g : Network} (hg : g.Reachable) (d : Dictionary)
    (classify : Classifier) :
    let a := d.addTo classify g
    (a.network.root = g.root ∧ a.network.names = g.names) ∧
      (∀ n, (∀ p, n ≠ .stems p) → a.network.entriesOf? n = g.entriesOf? n) ∧
      a.network.dangling = g.dangling ∧
      (∀ e, e ∈ a.network.entries ↔
        e ∈ g.entries ∨ ∃ r ∈ d.records, Dictionary.stemEntry classify g r.2 = .ok e) ∧
      (∀ r ∈ d.records, ∀ e, Dictionary.stemEntry classify g r.2 = .ok e →
        ∃ p c, e.source = .stems p ∧ e.next = .stemBoundary p c ∧
          .stems p ∈ g.names ∧ .stemBoundary p c ∈ g.names) ∧
      (∀ d' : Dictionary, (d.records.map Prod.snd).Perm (d'.records.map Prod.snd) →
        (d'.addTo classify g).network = a.network ∧
          d'.summary (d'.addTo classify g) = d.summary a) ∧
      (d.addTo classify a.network).network = a.network := by
  intro a
  have hwell : g.WellFormed := hg.wellFormed
  have ha : a = ⟨g.insertAll (Dictionary.stemEntries classify g d.records), _, _⟩ :=
    d.addTo_eq classify g
  have htakes : ∀ e ∈ Dictionary.stemEntries classify g d.records, g.TakesStem e :=
    fun e he => Dictionary.takesStem_of_mem_stemEntries he
  refine ⟨⟨?_, (d.addTo_defines classify g).1⟩, fun n hn => ?_, ?_, fun e => ?_, fun r _ e he => ?_,
    fun d' hperm => ⟨Dictionary.network_addTo_perm hwell classify hperm,
      Dictionary.summary_addTo_perm classify g hperm⟩, d.network_addTo_twice hwell classify⟩
  · rw [ha, Network.root_insertAll]
  · rw [ha]
    refine Network.entriesOf?_insertAll_of_ne fun e he => ?_
    obtain ⟨p, c, hstems, -⟩ := htakes e he
    rw [hstems]
    exact (hn p).symm
  · rw [ha, hwell.dangling_insertAll_of_takesStem htakes]
  · rw [ha, Network.mem_entries_insertAll, Dictionary.mem_stemEntries]
  · obtain ⟨p, c, hstems, hboundary, hin, hin'⟩ := Dictionary.takesStem_of_stemEntry he
    exact ⟨p, c, hstems, hboundary, hstems ▸ (hwell.agree _).mpr hin,
      hboundary ▸ (hwell.agree _).mpr hin'⟩

/-- A verb network takes two of three words: one that is classified by its part of speech,
and one whose stem it has already.  The same words then come the other way round. -/
theorem words_add_stems_only_of_verbs :
    let l : Layout := ⟨.regular, none, .standard⟩
    let r : Inflection := ⟨"VTA", "VTA_C", "aaba'", "aaba'w", ["+VTA", "+Ind"],
      [⟨"niaaba'waa", ⟨"ni", "aaba'w", "aa"⟩⟩]⟩
    let g := (Network.ofRoot "VerbRoot").extend (l.chains r)
    let classify : Classifier := fun w =>
      if w.partOfSpeech = some "vta1" then some "VTA_C" else none
    let waabam : DictionaryRecord := ⟨"waabam", "waabam", none, none, some "vta1"⟩
    let aaba : DictionaryRecord := ⟨" aaba'", "aaba'w", some "VTA_C", some "VTA", none⟩
    let waabi : DictionaryRecord := ⟨"waabi", "waabi", some "VAI_V", none, none⟩
    let d : Dictionary := ⟨"verbs.csv", [(2, waabam), (3, aaba), (4, waabi)]⟩
    let d' : Dictionary := ⟨"sorted.csv", [(2, waabi), (3, aaba), (4, waabam)]⟩
    let a := d.addTo classify g
    g.Reachable ∧ (d.records.map Prod.snd).Perm (d'.records.map Prod.snd) ∧
      d.summary a = ⟨3, 2, 1⟩ ∧ a.network.entryCount = g.entryCount + 1 ∧
      a.network.names = g.names ∧ (d'.addTo classify g).network = a.network ∧
      d'.summary (d'.addTo classify g) = d.summary a ∧
      (d.addTo classify a.network).network = a.network := by
  intro l r g classify waabam aaba waabi d d' a
  have hg : g.Reachable := .extend (.ofRoot "VerbRoot") (l.chains r)
  have hperm : (d.records.map Prod.snd).Perm (d'.records.map Prod.snd) := by
    decide +kernel
  obtain ⟨⟨-, hnames⟩, -, -, -, -, hreordered, htwice⟩ := words_add_stems_only hg d classify
  exact ⟨hg, hperm, by decide +kernel, by decide +kernel, by rw [hnames], (hreordered d' hperm).1,
    (hreordered d' hperm).2, htwice⟩

end Morphotactics
