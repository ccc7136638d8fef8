import Morphotactics.Proofs.AddedWords
import Morphotactics.Proofs.CleanTables
import Morphotactics.Proofs.Filing

/-!
# Words of tables in dictionaries

A word can stand in a table and in a dictionary as well.  The two are read in different
ways: a table by the names of its columns, with a form built from the cells of a row and
laid out as chains, and a dictionary record by record, with a stem looked up by class and
paradigm.  Both come to the same entry.  So a dictionary may list a word that a table has
inflected, in whatever blanks its cells stand, and the network has its stem already.
-/

namespace Morphotactics

/-! ## Rows that give forms -/

/-- A word of a dictionary that is the word of a record, read from given columns: headword,
stem, class and paradigm say the same apart from blanks around them, and class and paradigm
are not left open. -/
structure RowColumns.Lists (columns : RowColumns) (r : Csv.Record) (w : DictionaryRecord) :
    Prop where
  headword : Text.trim w.headword = Table.cell r columns.headword
  stem : Text.trim w.stem = Table.cell r columns.stem
  inflClass : w.inflClass.map Text.trim = some (Table.cell r columns.inflClass)
  paradigm : w.paradigm.map Text.trim = some (Table.cell r columns.paradigm)
  inflClass_ne : Table.cell r columns.inflClass ≠ ""
  paradigm_ne : Table.cell r columns.paradigm ≠ ""

/-- A row of a table together with the form that is read from it. -/
structure FormRow where
  table : Table
  config : Config
  columns : RowColumns
  record : Csv.Record
  form : Inflection
  found : table.rowColumns config = .ok columns
  listed : record ∈ table.records
  reads : (table.readRow config columns record).form = .ok form

/-- A word of a dictionary that is the word of a row. -/
def FormRow.Lists (row : FormRow) (w : DictionaryRecord) : Prop := row.columns.Lists row.record w

/-! ## Their stems in networks -/

/-- On the chain of a variant in the regular layout, the entry of the stem is the one that
belongs to the stems of the paradigm. -/
theorem Layout.mem_entries_chain_stems {l : Layout} (hmode : l.mode = .regular) {r : Inflection}
    {v : Variant} {e : Entry} :
    e ∈ (l.chain r v).entries ∧ e.source = .stems r.paradigm ↔ e = stemEntry r := by
  constructor
  · rintro ⟨he, hsource⟩
    have hmem : e ∈ Network.chainEntries "" (l.chain r v) := List.mem_cons_of_mem _ he
    have hfiles := files_of_mem_chainEntries hmem
    rw [hsource] at hfiles
    exact hfiles.2.2
  · rintro rfl
    refine ⟨?_, rfl⟩
    simp [chain, hmode, Chain.entries]

/-- A word with class and paradigm of its own is taken where the network has the two
sublexicons, however words are classified otherwise. -/
theorem Dictionary.stemEntry_eq_ok {g : Network} {w : DictionaryRecord} {p c : String}
    (hclass : filled? w.inflClass = some c) (hparadigm : filled? w.paradigm = some p)
    (hg : g.InStep) (hstems : .stems p ∈ g.names) (hboundary : .stemBoundary p c ∈ g.names)
    (classify : Classifier) :
    stemEntry classify g w =
      .ok ⟨.stems p, escape (Text.trim w.headword), escape (Text.trim w.stem),
        .stemBoundary p c⟩ := by
  have hdefines : g.defines (.stems p) = true := (hg.agree _).mp hstems
  have hdefines' : g.defines (.stemBoundary p c) = true := (hg.agree _).mp hboundary
  rw [stemEntry, hclass, hparadigm]
  simp only [Option.some_or, Option.getD_some, hdefines, hdefines']
  rfl

/-- A dictionary leaves a network as it is if its words are all taken as entries that are
there. -/
theorem Dictionary.addTo_eq_self {d : Dictionary} {classify : Classifier} {g : Network}
    (hg : g.WellFormed)
    (hd : ∀ r ∈ d.records, ∃ e, stemEntry classify g r.2 = .ok e ∧ e ∈ g.entries) :
    d.addTo classify g = ⟨g, d.records.length, []⟩ := by
  have hsame : g.insertAll (stemEntries classify g d.records) = g := by
    refine hg.insertAll_eq_self_iff.mpr fun e he => ?_
    obtain ⟨r, hr, htaken⟩ := mem_stemEntries.mp he
    obtain ⟨e', htaken', hthere⟩ := hd r hr
    rw [htaken] at htaken'
    exact Except.ok.inj htaken' ▸ hthere
  have hnone : refusals d.name classify g d.records = [] := by
    refine List.filterMap_eq_nil_iff.mpr fun r hr => ?_
    obtain ⟨e, htaken, -⟩ := hd r hr
    simp only [htaken]
  have htotal := length_stemEntries_add_refusals d.name classify g d.records
  rw [hnone, List.length_nil, Nat.add_zero] at htotal
  rw [addTo_eq, hsame, htotal, hnone]

/-- **The word of a row.**  A network that has what a row files takes the word as the stem
entry of the row. -/
theorem FormRow.Lists.stemEntry_eq {row : FormRow} {w : DictionaryRecord} (hw : row.Lists w)
    {l : Layout} (hmode : l.mode = .regular) {g : Network} (hg : g.WellFormed) (rootName : String)
    (hfiled : ∀ v ∈ row.form.variants, ∀ n e, l.Files rootName row.form v n e → e ∈ g.entries)
    (classify : Classifier) :
    Dictionary.stemEntry classify g w = .ok (Layout.stemEntry row.form) ∧
      Layout.stemEntry row.form ∈ g.entries := by
  -- a form that was read has a variant, and its chain brings both sublexicons
  obtain ⟨hvariants, hform⟩ := Table.form_readRow_eq_ok_iff.mp row.reads
  obtain ⟨v, hv⟩ := List.exists_mem_of_ne_nil _ (hform ▸ hvariants)
  have hstem : Layout.stemEntry row.form ∈ g.entries :=
    hfiled v hv (.stems row.form.paradigm) _ ⟨hmode, rfl, rfl⟩
  have hboundary := hg.source_mem_names
    (hfiled v hv (.stemBoundary row.form.paradigm row.form.inflClass) _ ⟨hmode, rfl, rfl, rfl⟩)
  have hclass : Dictionary.filled? w.inflClass = some row.form.inflClass := by
    rw [Dictionary.filled?, hw.inflClass, ← hform]
    exact Option.filter_eq_some_iff.mpr ⟨rfl, decide_eq_true hw.inflClass_ne⟩
  have hparadigm : Dictionary.filled? w.paradigm = some row.form.paradigm := by
    rw [Dictionary.filled?, hw.paradigm, ← hform]
    exact Option.filter_eq_some_iff.mpr ⟨rfl, decide_eq_true hw.paradigm_ne⟩
  refine ⟨?_, hstem⟩
  rw [Dictionary.stemEntry_eq_ok hclass hparadigm hg.toInStep (hg.source_mem_names hstem) hboundary
    classify, hw.headword, hw.stem, ← hform]
  rfl

/-- **Dictionaries know the words of tables.**  Read forms from rows of tables, lay them out
in the regular layout, with or without a slot, and add them to any network; and let it grow
into another one that came about by any operations.  A word of a dictionary that is the
word of one of these rows is then taken, however words are classified.  The entry that it
is taken as is the one that the row has among the stems, on the chain of each of its
variants, and inserting it changes nothing.  So a dictionary of such words leaves the network
as it is, although all of them count as added. -/
theorem table_words_are_known {g h : Network} {rows : List (Layout × FormRow)}
    (hrows : ∀ x ∈ rows, x.1.mode = .regular) (hh : h.Reachable)
    (hgrows : (g.addForms (rows.map fun x => (x.1, x.2.form))).GrowsTo h)
    (classify : Classifier) :
    (∀ x ∈ rows, ∀ w, x.2.Lists w →
      ∃ e, Dictionary.stemEntry classify h w = .ok e ∧
        (∀ v ∈ x.2.form.variants, ∀ e', e' ∈ (x.1.chain x.2.form v).entries ∧
          e'.source = .stems x.2.form.paradigm ↔ e' = e) ∧
        h.insert e = h) ∧
      ∀ d : Dictionary, (∀ r ∈ d.records, ∃ x ∈ rows, x.2.Lists r.2) →
        d.addTo classify h = ⟨h, d.records.length, []⟩ := by
  have hword : ∀ x ∈ rows, ∀ w, x.2.Lists w →
      Dictionary.stemEntry classify h w = .ok (Layout.stemEntry x.2.form) ∧
        Layout.stemEntry x.2.form ∈ h.entries := by
    intro x hx w hw
    refine hw.stemEntry_eq (hrows x hx) hh.wellFormed g.rootName (fun v hv n e hfiles => ?_)
      classify
    refine hgrows.mem_entries ?_
    exact Network.mem_entries_addForms.mpr
      (Or.inr ⟨_, List.mem_map_of_mem hx, v, hv, hfiles.mem_chainEntries⟩)
  refine ⟨fun x hx w hw => ?_, fun d hd => ?_⟩
  · obtain ⟨htaken, hthere⟩ := hword x hx w hw
    refine ⟨_, htaken, fun v _ e' => Layout.mem_entries_chain_stems (hrows x hx), ?_⟩
    exact hh.wellFormed.insertAll_eq_self_iff.mpr (List.forall_mem_singleton.mpr hthere)
  · refine Dictionary.addTo_eq_self hh.wellFormed fun r hr => ?_
    obtain ⟨x, hx, hw⟩ := hd r hr
    exact ⟨_, hword x hx r.2 hw⟩

/-- A row of verbs with a place for preverbs, a network that had a noun before and has a
stem more after, and the verb of the row in a dictionary, with blanks around. -/
theorem table_words_are_known_of_verb :
    let r : Csv.Record := ⟨2, ["VTA", "VTA_C", " aaba'", "aaba'w", "Ind", "niaaba'waa",
      "ni<<aaba'w>>aa"]⟩
    let t : Table := ⟨"VTA", ["Paradigm", "Class", "Lemma", "Stem", "Order", "Form1Surface",
      "Form1Split"], [r]⟩
    let c : Config := ⟨"VerbRoot", "", ["VTA"], [], ["Order"], "NONE", "NONE", [], none, none,
      none, none, "verbs.lexc", none, 3, .standard⟩
    let columns : RowColumns := ⟨0, 1, 2, 3, [4], [⟨1, 5, some 6⟩]⟩
    let l : Layout := ⟨.regular, some ⟨"Verb", none⟩, .standard⟩
    let f : Inflection := ⟨"VTA", "VTA_C", "aaba'", "aaba'w", ["+Ind"],
      [⟨"niaaba'waa", ⟨"ni", "aaba'w", "aa"⟩⟩]⟩
    let g := (Network.ofRoot "VerbRoot").insert
      ⟨.stems "NA", "makwa", "makw", .stemBoundary "NA" "1"⟩
    let h := (g.addForms [(l, f)]).insert
      ⟨.stems "VTA", "waabam", "waabam", .stemBoundary "VTA" "VTA_C"⟩
    let w : DictionaryRecord := ⟨"aaba' ", " aaba'w", some "VTA_C ", some " VTA", none⟩
    let d : Dictionary := ⟨"verbs.csv", [(2, w), (3, w)]⟩
    t.rowColumns c = .ok columns ∧ (t.readRow c columns r).form = .ok f ∧ columns.Lists r w ∧
      d.addTo Classifier.none h = ⟨h, 2, []⟩ := by
  intro r t c columns l f g h w d
  have hcolumns : t.rowColumns c = .ok columns := by decide +kernel
  have hreads : (t.readRow c columns r).form = .ok f := by decide +kernel
  have hlists : columns.Lists r w := by constructor <;> decide +kernel
  let row : FormRow := ⟨t, c, columns, r, f, hcolumns, List.mem_singleton_self r, hreads⟩
  have hg : g.Reachable := .insert (.ofRoot "VerbRoot") _
  have hforms : (g.addForms [(l, f)]).Reachable := by
    rw [Network.addForms_eq_extend]
    exact .extend hg _
  have hh : h.Reachable := .insert hforms _
  have hregular : ∀ x ∈ [(l, row)], x.1.mode = .regular := List.forall_mem_singleton.mpr rfl
  have hknown := table_words_are_known hregular hh (Network.GrowsTo.insert _ _) Classifier.none
  refine ⟨hcolumns, hreads, hlists, hknown.2 d fun x hx => ?_⟩
  refine ⟨(l, row), List.mem_singleton_self _, ?_⟩
  have hword : x.2 = w := by
    rcases List.mem_cons.mp hx with rfl | hx
    · rfl
    · rw [List.mem_singleton.mp hx]
  exact hword ▸ hlists

end Morphotactics
