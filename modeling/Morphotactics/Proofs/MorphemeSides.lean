import Morphotactics.Proofs.CleanTables
import Morphotactics.Proofs.DeclaredFlags
import Morphotactics.Proofs.LineReading
import Morphotactics.Proofs.Merging
import Morphotactics.Proofs.SideBySide

/-!
# The sides of morphemes

Stems, endings and irregular forms are texts of users.  They reach the entries of a network
in several ways: from cells that make a form, from a record of a table, from a segmented
form, from a headword and tags that are put together, or from a dictionary.  On each of
these ways they are escaped, and stay so.

So what a user writes is never taken for the empty text of lexc source, which is a bare
zero.  `Entry.Guarded` says what this comes to for one entry.  Whatever a form or a
dictionary files is guarded, merging keeps it, and hence all entries of a network are
guarded that was built of these (`Network.Built`), a compiled one among them
(`Network.built_of_compile`).
-/

namespace Morphotactics

/-- Whether the entries of a sublexicon are morphemes: stems, endings, or irregular forms
as wholes. -/
def Sublexicon.holdsMorphemes : Sublexicon → Bool
  | stems _ | endings _ | irregular _ => true
  | _ => false

/-- Whether the entries of a sublexicon are boundaries of morphemes. -/
def Sublexicon.holdsBoundaries : Sublexicon → Bool
  | prefixBoundary _ | stemBoundary _ _ => true
  | _ => false

/-! ## Lines that show no sides -/

/-- A line shows nothing but the way on when both sides are empty, and only then. -/
theorem Entry.line_eq_next_iff {e : Entry} :
    e.line = e.next.text ++ " ;" ↔ e.upper = epsilon ∧ e.lower = epsilon := by
  constructor
  · intro h
    by_contra hsides
    -- the sides and a blank would make the line longer
    have hlength := congrArg (fun s => s.toList.length) h
    have hblank : " ".toList.length = 1 := by decide
    unfold line at hlength
    split at hlength
    · rename_i hsame
      rw [if_neg fun hempty => hsides ⟨hempty, hsame ▸ hempty⟩] at hlength
      simp only [String.toList_append, List.length_append, hblank] at hlength
      omega
    · simp only [String.toList_append, List.length_append, hblank] at hlength
      omega
  · rintro ⟨hupper, hlower⟩
    rw [line, if_pos (hupper.trans hlower.symm), if_pos hupper]

/-! ## Guarded entries -/

/-- An entry on which no text of a user is taken for the empty text: morphemes are well
escaped on both sides, and the empty text stands for the analysis of boundaries only. -/
structure Entry.Guarded (e : Entry) : Prop where
  morpheme : e.source.holdsMorphemes →
    WellEscaped e.upper.toList ∧ WellEscaped e.lower.toList
  upper : e.upper = epsilon ↔ e.source.holdsBoundaries
  lower : e.lower ≠ epsilon

namespace Entry.Guarded

variable {e : Entry}

/-- The line of a guarded entry shows its sides. -/
theorem line_ne (he : e.Guarded) : e.line ≠ e.next.text ++ " ;" :=
  fun h => he.lower (line_eq_next_iff.mp h).2

/-- Escaped sides are guarded wherever no boundary stands. -/
theorem of_escaped (hsource : e.source.holdsBoundaries = false)
    (hupper : WellEscaped e.upper.toList) (hlower : WellEscaped e.lower.toList) : e.Guarded where
  morpheme _ := ⟨hupper, hlower⟩
  upper := iff_of_false hupper.ne_epsilon (by rw [hsource]; exact Bool.false_ne_true)
  lower := hlower.ne_epsilon

/-- A flag is no empty text, also with more text behind it. -/
theorem of_flag (f : Flag) {rest : String} (hmorpheme : e.source.holdsMorphemes = false)
    (hboundary : e.source.holdsBoundaries = false) (hupper : e.upper = f.symbol)
    (hlower : e.lower = f.symbol ++ rest) : e.Guarded where
  morpheme h := absurd (hmorpheme.symm.trans h) Bool.false_ne_true
  upper := by
    rw [hupper, hboundary]
    exact iff_of_false (f.epsilon_ne_symbol ·.symm) Bool.false_ne_true
  lower := by
    intro hempty
    obtain ⟨cs, hcs⟩ := f.exists_toList_symbol
    have hhead := congrArg String.toList (hlower.symm.trans hempty)
    rw [String.toList_append, hcs, List.cons_append] at hhead
    exact absurd (List.cons.inj hhead).1 (by decide)

/-- The symbol of a boundary stands against the empty text. -/
theorem of_boundary (b : Boundary) (hmorpheme : e.source.holdsMorphemes = false)
    (hboundary : e.source.holdsBoundaries = true) (hupper : e.upper = epsilon)
    (hlower : e.lower = b.symbol) : e.Guarded where
  morpheme h := absurd (hmorpheme.symm.trans h) Bool.false_ne_true
  upper := iff_of_true hupper hboundary
  lower := by
    rw [hlower]
    cases b <;> decide

/-- An entry that is taken over from another network stays guarded: only roots are renamed,
and they hold neither morphemes nor boundaries. -/
theorem adopt (he : e.Guarded) (g other : Network) : (g.adopt other e).Guarded := by
  unfold Network.adopt
  split
  · rename_i hsource
    have hupper := he.upper
    rw [hsource] at hupper
    exact ⟨fun h => absurd h Bool.false_ne_true, hupper, he.lower⟩
  · exact he

end Entry.Guarded

/-- **What a form files is guarded**, in either layout. -/
theorem Layout.Files.guarded {l : Layout} {rootName : String} {r : Inflection} {v : Variant}
    {n : Sublexicon} {e : Entry} (hr : r.Escaped) (hv : v ∈ r.variants)
    (h : l.Files rootName r v n e) : e.Guarded := by
  cases n with
  | root name =>
      obtain ⟨-, rfl⟩ := h
      exact .of_flag (Flag.setParadigm r.paradigm) rfl rfl rfl String.append_empty.symm
  | prefixes p =>
      obtain ⟨-, -, rfl⟩ := h
      exact .of_flag (Flag.setPrefix v.parts.pre) rfl rfl rfl rfl
  | prefixBoundary p =>
      obtain ⟨-, -, rfl⟩ := h
      exact .of_boundary .opening rfl rfl rfl rfl
  | gate pos =>
      obtain ⟨-, -, rfl⟩ := h
      exact .of_flag (Flag.requireParadigm r.paradigm) rfl rfl rfl String.append_empty.symm
  | stems p =>
      obtain ⟨-, -, rfl⟩ := h
      exact .of_escaped rfl hr.headword hr.stem
  | stemBoundary p c =>
      obtain ⟨-, -, -, rfl⟩ := h
      exact .of_boundary .closing rfl rfl rfl rfl
  | prefixCheck p c =>
      obtain ⟨-, -, -, rfl⟩ := h
      exact .of_flag (Flag.requirePrefix v.parts.pre) rfl rfl rfl String.append_empty.symm
  | orderCheck k =>
      obtain ⟨-, -, rfl⟩ := h
      exact .of_flag (Flag.unifyOrder k.order) rfl rfl rfl String.append_empty.symm
  | endings k =>
      obtain ⟨-, -, rfl⟩ := h
      exact .of_escaped rfl hr.analysisTags (hr.post v hv)
  | irregular p =>
      obtain ⟨-, -, rfl⟩ := h
      exact .of_escaped rfl hr.analysis (WellEscaped.escape v.surface)
  | external name => exact h.elim
  | terminal => exact h.elim

/-- **What a word of a dictionary is taken as is guarded**, whatever the network has. -/
theorem Dictionary.guarded_of_stemEntry {classify : Classifier} {g : Network}
    {r : DictionaryRecord} {e : Entry} (h : stemEntry classify g r = .ok e) : e.Guarded := by
  obtain ⟨p, c, -, -, rfl⟩ := exists_of_stemEntry h
  exact .of_escaped rfl (WellEscaped.escape _) (WellEscaped.escape _)

/-! ## Forms of records -/

/-- Variants with parts that were cut from segmented forms can be added one after the
other. -/
theorem Inflection.exists_withVariants {vs : List Variant} (r : Inflection)
    (h : ∀ v ∈ vs, ∃ form, Segmentation.split form = .ok v.parts) :
    ∃ forms, r.withVariants forms = .ok { r with variants := r.variants ++ vs } := by
  have hforms : ∀ v, ∃ form, v ∈ vs → Segmentation.split form = .ok v.parts := by
    intro v
    by_cases hv : v ∈ vs
    · obtain ⟨form, hform⟩ := h v hv
      exact ⟨form, fun _ => hform⟩
    · exact ⟨"", fun hv' => absurd hv' hv⟩
  choose form hform using hforms
  have hadded : ∀ v ∈ vs, ∃ w, some v = some w ∧ w.surface = v.surface ∧
      Segmentation.split (form v) = .ok w.parts := fun v hv => ⟨v, rfl, rfl, hform v hv⟩
  refine ⟨vs.map fun v => (v.surface, form v), ?_⟩
  rw [withVariants_filterMap r hadded, List.filterMap_some]

namespace Table

variable {c : Config} {columns : RowColumns} {r : Csv.Record}

/-- A form that is read from a record is made from its cells. -/
theorem fromCells_inflection (c : Config) (columns : RowColumns) (r : Csv.Record) :
    (inflection c columns r).FromCells := by
  have hsplit : ∀ v ∈ columns.variants.filterMap (variant? c r),
      ∃ form, Segmentation.split form = .ok v.parts := by
    intro v hv
    obtain ⟨place, -, hvariant⟩ := List.mem_filterMap.mp hv
    unfold variant? parts? at hvariant
    split at hvariant
    · obtain ⟨parts, hparts, rfl⟩ := Option.map_eq_some_iff.mp hvariant
      obtain ⟨i, -, hcell⟩ := Option.bind_eq_some_iff.mp hparts
      exact ⟨cell r i, toOption_eq_some_iff.mp hcell⟩
    · cases hvariant
  obtain ⟨forms, hforms⟩ := Inflection.exists_withVariants
    (.ofCells (cell r columns.paradigm) (cell r columns.inflClass) (cell r columns.headword)
      (cell r columns.stem) (values c columns r)) hsplit
  exact ⟨_, _, _, _, _, forms, hforms⟩

/-- A form that is read from a record is made from its cells. -/
theorem fromCells_of_readRow {t : Table} {form : Inflection}
    (h : (t.readRow c columns r).form = .ok form) : form.FromCells := by
  obtain ⟨-, rfl⟩ := form_readRow_eq_ok_iff.mp h
  exact fromCells_inflection c columns r

end Table

/-! ## Networks that were built -/

namespace Network

/-- A network that was built: from a root, by forms that were made from cells or read from
records, by other networks that were built, and by dictionaries. -/
inductive Built : Network → Prop
  | ofRoot (name : String) : Built (ofRoot name)
  | addForm {g : Network} (hg : Built g) (l : Layout) {r : Inflection} (hr : r.FromCells) :
      Built (g.extend (l.chains r))
  | addRow {g : Network} (hg : Built g) (l : Layout) {t : Table} {c : Config}
      {columns : RowColumns} {record : Csv.Record} {r : Inflection}
      (hr : (t.readRow c columns record).form = .ok r) : Built (g.extend (l.chains r))
  | merge {g other : Network} (hg : Built g) (hother : Built other) : Built (g.merge other)
  | addTo {g : Network} (hg : Built g) (d : Dictionary) (classify : Classifier) :
      Built (d.addTo classify g).network

/-- Building takes only the four operations. -/
theorem Built.reachable {g : Network} (hg : g.Built) : g.Reachable := by
  induction hg with
  | ofRoot name => exact .ofRoot name
  | addForm _ l _ ih => exact .extend ih _
  | addRow _ l _ ih => exact .extend ih _
  | merge _ _ ih ihother => exact .merge ih ihother
  | addTo _ d classify ih => exact .addTo ih d classify

/-- **A form's step.** -/
theorem guarded_extend {g : Network} (hg : ∀ e ∈ g.entries, e.Guarded) (l : Layout)
    {r : Inflection} (hr : r.Escaped) : ∀ e ∈ (g.extend (l.chains r)).entries, e.Guarded := by
  intro e he
  rw [extend_eq_insertAll, mem_entries_insertAll] at he
  obtain hold | hnew := he
  · exact hg e hold
  · obtain ⟨chain, hchain, hmem⟩ := List.mem_flatMap.mp hnew
    obtain ⟨v, hv, rfl⟩ := List.mem_map.mp hchain
    exact (Layout.files_of_mem_chainEntries hmem).guarded hr hv

/-- **A run of building** leaves guarded entries only. -/
theorem Built.guarded {g : Network} (hg : g.Built) : ∀ e ∈ g.entries, e.Guarded := by
  induction hg with
  | ofRoot name => exact fun e he => absurd he List.not_mem_nil
  | addForm _ l hr ih => exact guarded_extend ih l hr.escaped
  | addRow _ l hr ih => exact guarded_extend ih l (Table.fromCells_of_readRow hr).escaped
  | @merge g other _ hother ih ihother =>
      intro e he
      rw [mem_entries_merge hother.reachable.wellFormed.toInStep] at he
      obtain hold | ⟨e', he', rfl⟩ := he
      · exact ih e hold
      · exact (ihother e' he').adopt g other
  | @addTo g _ d classify ih =>
      intro e he
      rw [Dictionary.addTo_eq, mem_entries_insertAll] at he
      obtain hold | hnew := he
      · exact ih e hold
      · obtain ⟨word, -, hword⟩ := Dictionary.mem_stemEntries.mp hnew
        exact Dictionary.guarded_of_stemEntry hword

end Network

/-! ## Compilations -/

namespace Progress

variable {p : Progress}

/-- **A run of rows** goes on building. -/
theorem built_addRows (hp : p.network.Built) (l : Layout) (t : Table) (c : Config)
    (columns : RowColumns) (rs : List Csv.Record) :
    ((rs.map (t.readRow c columns)).foldl (addRow l) p).network.Built := by
  induction rs generalizing p with
  | nil => exact hp
  | cons r rs ih =>
      rw [List.map_cons, List.foldl_cons]
      refine ih ?_
      cases hform : (t.readRow c columns r).form with
      | error e =>
          rw [addRow, hform]
          exact hp
      | ok form =>
          rw [addRow_of_ok hform]
          exact .addRow hp l hform

/-- A table goes on building, also where it cannot be used. -/
theorem built_addTable (hp : p.network.Built) (s : Sources) (c : Config) (m : Mode)
    (name : String) : (p.addTable s c m name).1.network.Built := by
  unfold addTable
  dsimp only
  cases Table.load s.disk (c.tablePath s.sourceDir name) with
  | error e => exact hp
  | ok t =>
      dsimp only [Table.rows]
      cases t.rowColumns c with
      | error e => exact hp
      | ok columns => exact built_addRows (p := p.note _) hp (c.layout m) t c columns t.records

/-- A dictionary goes on building, also where it cannot be used. -/
theorem built_addDictionary (hp : p.network.Built) (disk : Disk) (c : Config)
    (dirs : List String) (name : String) :
    (p.addDictionary disk c dirs name).1.network.Built := by
  unfold addDictionary
  cases Dictionary.locate disk name dirs with
  | error e => exact hp
  | ok path =>
      dsimp only
      split
      · exact hp
      · rename_i d classify _
        exact .addTo hp d classify

end Progress

/-- **Compiled networks** are built. -/
theorem Network.built_of_compile {s : Sources} {c : Config} {m : Mode} {a : Alphabet}
    {compiled : Compiled} (h : (compile s c m a).outcome = .ok compiled) :
    compiled.network.Built := by
  -- the compilation is put beside itself, so that the relation says something of one place
  obtain ⟨p, p', r, ⟨hbuilt, -⟩, hcompile, -⟩ :=
    Progress.compile_related (R := fun p p' => p.network.Built ∧ p' = p)
      ⟨Built.ofRoot (c.rootFor m), rfl⟩
      (fun name _ p p' hp => by
        obtain ⟨hp, rfl⟩ := hp
        exact ⟨rfl, Progress.built_addTable hp s c m name, rfl⟩)
      (fun p p' hp => Progress.endIn_addDictionaries hp rfl fun dirs name _ _ => by
        obtain ⟨hp, rfl⟩ := hp
        exact ⟨rfl, Progress.built_addDictionary hp s.disk c dirs name, rfl⟩)
  rw [hcompile] at h
  cases r with
  | error e => cases h
  | ok summary =>
      obtain rfl := Except.ok.inj h
      exact hbuilt

/-! ## Sides of entries -/

/-- **What users write stays text.**  Take any network that was built.  Its stems, endings
and irregular forms are well escaped on both sides, whatever stood in the cells, and the
empty text stands for the analysis of boundaries and nowhere else; so every line shows the
sides of its entry before the way on.  A word of a dictionary has well-escaped sides for
any network that takes it. -/
theorem morpheme_sides_escaped {g : Network} (hg : g.Built) :
    (∀ e ∈ g.entries,
      (e.source.holdsMorphemes → WellEscaped e.upper.toList ∧ WellEscaped e.lower.toList) ∧
        (e.upper = epsilon ↔ e.source.holdsBoundaries) ∧ e.lower ≠ epsilon ∧
        e.line ≠ e.next.text ++ " ;") ∧
      ∀ (h : Network) (classify : Classifier) (r : DictionaryRecord) (e : Entry),
        Dictionary.stemEntry classify h r = .ok e →
          WellEscaped e.upper.toList ∧ WellEscaped e.lower.toList := by
  constructor
  · intro e he
    have hguarded : e.Guarded := hg.guarded e he
    exact ⟨hguarded.morpheme, hguarded.upper, hguarded.lower, hguarded.line_ne⟩
  · intro h classify r e hword
    obtain ⟨p, c, -, -, rfl⟩ := Dictionary.exists_of_stemEntry hword
    exact ⟨WellEscaped.escape _, WellEscaped.escape _⟩

/-- A zero as a headword, percent signs as stem and ending, and a zero as a word of a
dictionary: the network has them all, and none of them is empty. -/
theorem morpheme_sides_escaped_of_zeros :
    let r : Inflection := ⟨"VTI", "VTI_i", "%0", "%%", ["+VTI", "+%0Pl"],
      [⟨"0 %", ⟨"%0", "% ", "%%"⟩⟩]⟩
    let shard := (Network.ofRoot "Shard").extend (Layout.chains ⟨.irregular, none, .standard⟩ r)
    let verbs := (Network.ofRoot "Verb").extend
      (Layout.chains ⟨.regular, some ⟨"Verb", none⟩, .standard⟩ r)
    let words : Dictionary := ⟨"words", [(2, ⟨" 0 ", "0%", some "VTI_i", none, none⟩)]⟩
    let g := (words.addTo Classifier.none (verbs.merge shard)).network
    g.Built ∧
      (⟨.stems "VTI", "%0", "%0%%", .stemBoundary "VTI" "VTI_i"⟩ : Entry) ∈ g.entries ∧
      (⟨.irregular "VTI", "%0+VTI+%0Pl", "%0% %%", .terminal⟩ : Entry) ∈ g.entries ∧
      ∀ e ∈ g.entries, e.lower ≠ epsilon ∧ e.line ≠ e.next.text ++ " ;" := by
  intro r shard verbs words g
  have hr : r.FromCells :=
    ⟨"VTI", "VTI_i", "0", "%", ["VTI", "0Pl"], [("0 %", "0<< >>%")], by rfl⟩
  have hg : g.Built :=
    .addTo (.merge (.addForm (.ofRoot "Verb") _ hr) (.addForm (.ofRoot "Shard") _ hr)) words _
  have hsides := (morpheme_sides_escaped hg).1
  exact ⟨hg, by decide +kernel, by decide +kernel,
    fun e he => ⟨(hsides e he).2.2.1, (hsides e he).2.2.2⟩⟩

end Morphotactics
