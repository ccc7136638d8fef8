import Mathlib.Data.List.Find
import Morphotactics.Proofs.CleanTables
import Morphotactics.Proofs.SideBySide

/-!
# What is skipped leaves no trace

Rows and variants that are not usable are skipped while a table is read.  To see that
nothing of them stays behind, two compilations are run side by side: one on the tables as
they are, the other on cleaned tables, where such rows and variants are not there at all.
The first one takes a step more for each row that it skips, and this step counts the row
and gives a warning; in all other steps both do the same (`Unskipped`).

So both come to the same network and the same alphabet (`compile_cleaned`), unless a text
that is blanked also gave a tag, and there is such a configuration
(`blanked_text_gave_tag`).
-/

namespace Morphotactics

namespace Progress

/-- A compilation in progress, and one that has come as far without the rows that the first
one skipped. -/
structure Unskipped (p p' : Progress) : Prop where
  alphabet : p'.alphabet = p.alphabet
  network : p'.network = p.network
  chains : p'.counts.chains = p.counts.chains
  skipped : p'.counts.skippedRows = 0
  rows : p.counts.rows = p'.counts.rows + p.counts.skippedRows

variable {p p' : Progress}

/-- Notices make no difference, even different ones. -/
theorem Unskipped.note (h : p.Unskipped p') (n n' : Notice) : (p.note n).Unskipped (p'.note n') :=
  ⟨h.alphabet, h.network, h.chains, h.skipped, h.rows⟩

/-- **A row that is skipped** is counted, and that is all. -/
theorem Unskipped.skip (h : p.Unskipped p') (l : Layout) {r : RowReading} {e : NoVariants}
    (hr : r.form = .error e) : (p.addRow l r).Unskipped p' := by
  unfold addRow
  rw [hr]
  refine ⟨h.alphabet, h.network, h.chains, h.skipped, ?_⟩
  dsimp only
  have hrows := h.rows
  omega

/-- **A row with a form** adds the same to both. -/
theorem Unskipped.addRow (h : p.Unskipped p') (l : Layout) {r r' : RowReading} {f : Inflection}
    (hr : r.form = .ok f) (hr' : r'.form = .ok f) :
    (p.addRow l r).Unskipped (p'.addRow l r') := by
  rw [Progress.addRow_of_ok hr, Progress.addRow_of_ok hr']
  refine ⟨?_, ?_, ?_, h.skipped, ?_⟩
  · dsimp only
    rw [h.alphabet]
  · dsimp only
    rw [h.network]
  · dsimp only
    rw [h.chains]
  · dsimp only
    have hrows := h.rows
    omega

/-- **A run of rows** adds the same to both where the second run has just the forms of the
first. -/
theorem Unskipped.addRows (h : p.Unskipped p') (l : Layout) {rows rows' : List RowReading}
    (hforms : rows'.map RowReading.form = (usableForms rows).map Except.ok) :
    (rows.foldl (Progress.addRow l) p).Unskipped (rows'.foldl (Progress.addRow l) p') := by
  induction rows generalizing p p' rows' with
  | nil =>
      obtain rfl := List.map_eq_nil_iff.mp hforms
      exact h
  | cons r rows ih =>
      rw [usableForms, List.filterMap_cons] at hforms
      cases hr : r.form with
      | error e =>
          rw [hr] at hforms
          exact ih (h.skip l hr) hforms
      | ok f =>
          rw [hr] at hforms
          obtain ⟨r', rest, rfl, hr', hrest⟩ := List.map_eq_cons_iff.mp hforms
          exact ih (h.addRow l hr hr') hrest

end Progress

/-- What two tables give, the second of which has been cleaned: the same error, or rows for the
same forms. -/
inductive RowsCleaned :
    Except TableError (List RowReading) → Except TableError (List RowReading) → Prop
  | failed (e : TableError) : RowsCleaned (.error e) (.error e)
  | read {rows rows' : List RowReading}
      (hforms : rows'.map RowReading.form = (usableForms rows).map Except.ok) :
      RowsCleaned (.ok rows) (.ok rows')

/-- Sources with the same dictionaries and with cleaned tables. -/
structure Sources.Cleaned (s s' : Sources) (c : Config) (m : Mode) : Prop where
  tables : ∀ name ∈ c.tablesFor m,
    (Table.load s'.disk (c.tablePath s'.sourceDir name)).map Table.sheet =
      (Table.load s.disk (c.tablePath s.sourceDir name)).map fun t => (t.cleaned c).sheet
  dictionaryDirs : s'.dictionaryDirs = s.dictionaryDirs
  dictionaries : ∀ dirs, s.dictionaryDirs = some dirs →
    ∀ name ∈ c.dictionary.toList ++ c.classMap.toList, ∀ dir ∈ dirs,
      s'.disk.read (Path.join dir name) = s.disk.read (Path.join dir name)

/-- Sources for one table and without dictionaries. -/
theorem Sources.cleaned_of_table {s s' : Sources} {c : Config} {m : Mode} {name path : String}
    (hnames : c.tablesFor m = [name]) (hpath : c.tablePath s.sourceDir name = path)
    (hpath' : c.tablePath s'.sourceDir name = path)
    (htable : (Table.load s'.disk path).map Table.sheet =
      (Table.load s.disk path).map fun t => (t.cleaned c).sheet)
    (hdirs : s.dictionaryDirs = none) (hdirs' : s'.dictionaryDirs = none) :
    s.Cleaned s' c m where
  tables := by
    intro name' hname'
    rw [hnames] at hname'
    rw [List.mem_singleton.mp hname', hpath, hpath']
    exact htable
  dictionaryDirs := hdirs'.trans hdirs.symm
  dictionaries := by
    intro dirs hsome
    rw [hdirs] at hsome
    cases hsome

/-- No text that is wasted in a table gives a tag. -/
def Sources.KeepTags (s : Sources) (c : Config) (m : Mode) : Prop :=
  ∀ name ∈ c.tablesFor m, ∀ t, Table.load s.disk (c.tablePath s.sourceDir name) = .ok t →
    t.KeepsTags c

variable {s s' : Sources} {c : Config} {m : Mode}

/-- A cleaned table gives the rows of the table without those that are skipped. -/
theorem Sources.Cleaned.rows (h : s.Cleaned s' c m) (htags : s.KeepTags c m) {name : String}
    (hname : name ∈ c.tablesFor m) : RowsCleaned (s.rows c name) (s'.rows c name) := by
  have htable := h.tables name hname
  unfold Sources.rows
  cases hload : Table.load s.disk (c.tablePath s.sourceDir name) with
  | error e =>
      rw [hload] at htable
      cases hload' : Table.load s'.disk (c.tablePath s'.sourceDir name) with
      | error e' =>
          rw [hload'] at htable
          obtain rfl := Except.error.inj htable
          exact .failed e'
      | ok t' =>
          rw [hload'] at htable
          cases htable
  | ok t =>
      rw [hload] at htable
      cases hload' : Table.load s'.disk (c.tablePath s'.sourceDir name) with
      | error e' =>
          rw [hload'] at htable
          cases htable
      | ok t' =>
          rw [hload'] at htable
          have hsheet : t'.sheet = (t.cleaned c).sheet := Except.ok.inj htable
          dsimp only
          cases hrows : t.rows c with
          | error e =>
              rw [Table.rows_of_sheet_error hsheet hrows]
              exact .failed e
          | ok rows =>
              obtain ⟨rows', hrows', hforms⟩ :=
                Table.rows_of_sheet hsheet (htags name hname t hload) hrows
              rw [hrows']
              exact .read hforms

namespace Progress

variable {p p' : Progress}

/-- **A table** ends alike in both, since it is the same table or it was cleaned. -/
theorem Unskipped.addTable (h : p.Unskipped p') {name : String}
    (hrows : RowsCleaned (s.rows c name) (s'.rows c name)) :
    EndIn Unskipped (p.addTable s c m name) (p'.addTable s' c m name) := by
  have hnote := h.note (.compilingTable (c.tablePath s.sourceDir name))
    (.compilingTable (c.tablePath s'.sourceDir name))
  rw [addTable_eq, addTable_eq]
  generalize s.rows c name = x at hrows ⊢
  generalize s'.rows c name = x' at hrows ⊢
  cases hrows with
  | failed e => exact ⟨rfl, hnote⟩
  | read hforms => exact ⟨rfl, hnote.addRows (c.layout m) hforms⟩

end Progress

/-! ## Dictionaries -/

section Located

variable {disk disk' : Disk} {dirs : List String} {name : String}

/-- A dictionary is found at the same path where the paths in question read the same. -/
theorem locate_congr
    (h : ∀ dir ∈ dirs, disk'.read (Path.join dir name) = disk.read (Path.join dir name)) :
    Dictionary.locate disk' name dirs = Dictionary.locate disk name dirs := by
  have hfind : (dirs.map fun dir => Path.join dir name).find? disk'.isFile =
      (dirs.map fun dir => Path.join dir name).find? disk.isFile := by
    refine List.find?_congr fun path hpath => ?_
    obtain ⟨dir, hdir, rfl⟩ := List.mem_map.mp hpath
    rw [Disk.isFile, Disk.isFile, h dir hdir]
  rw [Dictionary.locate, Dictionary.locate, hfind]

/-- What is read at a path where something was located. -/
theorem read_located
    (h : ∀ dir ∈ dirs, disk'.read (Path.join dir name) = disk.read (Path.join dir name))
    {path : String} (hpath : Dictionary.locate disk name dirs = .ok path) :
    disk'.read path = disk.read path := by
  unfold Dictionary.locate at hpath
  cases hfind : (dirs.map fun dir => Path.join dir name).find? disk.isFile with
  | none =>
      rw [hfind] at hpath
      cases hpath
  | some path' =>
      rw [hfind] at hpath
      obtain rfl := Except.ok.inj hpath
      obtain ⟨dir, hdir, rfl⟩ := List.mem_map.mp (List.mem_of_find?_eq_some hfind)
      exact h dir hdir

/-- A dictionary is loaded alike from disks on which its path reads the same. -/
theorem load_congr {path : String} (h : disk'.read path = disk.read path) :
    Dictionary.load disk' path = Dictionary.load disk path := by
  rw [Dictionary.load, Dictionary.load, h]

/-- A classifier depends on what is read where class maps are looked for. -/
theorem classifier_congr
    (h : ∀ name ∈ c.classMap.toList, ∀ dir ∈ dirs,
      disk'.read (Path.join dir name) = disk.read (Path.join dir name)) :
    Progress.classifier disk' c dirs = Progress.classifier disk c dirs := by
  unfold Progress.classifier
  cases hmap : c.classMap with
  | none => rfl
  | some name =>
      have hread := h name (by rw [hmap]; exact List.mem_cons_self)
      dsimp only
      rw [locate_congr hread]
      cases hlocate : Dictionary.locate disk name dirs with
      | error e => rfl
      | ok path =>
          have hload : ClassMap.load disk' path = ClassMap.load disk path := by
            rw [ClassMap.load, ClassMap.load, read_located hread hlocate]
          dsimp only [bind, Except.bind]
          rw [hload]

end Located

namespace Progress

variable {p p' : Progress}

/-- **Adding a dictionary.** -/
theorem Unskipped.addDictionary (h : p.Unskipped p') {disk disk' : Disk} {dirs : List String}
    {name : String}
    (hread : ∀ n ∈ name :: c.classMap.toList, ∀ dir ∈ dirs,
      disk'.read (Path.join dir n) = disk.read (Path.join dir n)) :
    EndIn Unskipped (p.addDictionary disk c dirs name) (p'.addDictionary disk' c dirs name) := by
  have hname := hread name List.mem_cons_self
  have hclassifier : classifier disk' c dirs = classifier disk c dirs :=
    classifier_congr fun n hn => hread n (List.mem_cons_of_mem _ hn)
  unfold Progress.addDictionary
  rw [locate_congr hname]
  cases hlocate : Dictionary.locate disk name dirs with
  | error e => exact ⟨rfl, h⟩
  | ok path =>
      dsimp only
      rw [load_congr (read_located hname hlocate), hclassifier]
      split
      · exact ⟨rfl, h.note _ _⟩
      · rename_i d classify _
        have hadded : (p'.note (.openingDictionary path)).network =
            (p.note (.openingDictionary path)).network := h.network
        rw [hadded]
        exact ⟨rfl, h.alphabet, rfl, h.chains, h.skipped, h.rows⟩

end Progress

/-- What was counted, without the rows that were skipped. -/
def Counts.unskipped (n : Counts) : Counts := ⟨n.rows - n.skippedRows, 0, n.chains⟩

/-- The counts are the same but for the rows that were skipped. -/
theorem Progress.Unskipped.counts_eq {p p' : Progress} (h : p.Unskipped p') :
    p'.counts = p.counts.unskipped := by
  obtain ⟨-, -, hchains, hskipped, hrows⟩ := h
  cases hcounts : p'.counts with
  | mk rows skippedRows chains =>
      rw [hcounts] at hchains hskipped hrows
      dsimp only at hchains hskipped hrows
      rw [Counts.unskipped, hchains, hskipped]
      congr 1
      omega

/-- **Skipping leaves no trace.**  A compilation of cleaned tables ends as that of the tables
does, with the same alphabet, and with the same error or with the same network, chains and
dictionary.  It only has no rows to skip: its rows are those that were not skipped before.
This asks that no text that is blanked also gives a tag. -/
theorem compile_cleaned (s s' : Sources) (c : Config) (m : Mode) (a : Alphabet)
    (h : s.Cleaned s' c m) (htags : s.KeepTags c m) :
    (compile s' c m a).alphabet = (compile s c m a).alphabet ∧
      (compile s' c m a).outcome = (compile s c m a).outcome.map (fun compiled =>
        { compiled with counts := compiled.counts.unskipped }) ∧
      ∀ compiled, (compile s c m a).outcome = .ok compiled →
        compiled.counts.skippedRows ≤ compiled.counts.rows := by
  have hinitial : (Progress.initial c m a).Unskipped (.initial c m a) := ⟨rfl, rfl, rfl, rfl, rfl⟩
  obtain ⟨p, p', r, hprogress, hcompile, hcompile'⟩ := Progress.compile_related hinitial
    (fun name hname p p' hp => hp.addTable (h.rows htags hname))
    fun p p' hp => Progress.endIn_addDictionaries hp h.dictionaryDirs
      fun dirs name hdirs hname => hp.addDictionary fun n hn =>
        h.dictionaries dirs hdirs n (by rw [hname]; exact hn)
  rw [hcompile, hcompile']
  cases r with
  | error e => exact ⟨hprogress.alphabet, rfl, nofun⟩
  | ok summary =>
      refine ⟨hprogress.alphabet, ?_, fun compiled hcompiled => ?_⟩
      · have hnetwork := hprogress.network
        have hcounts := hprogress.counts_eq
        dsimp only [Progress.finish, Progress.note, Except.map]
        rw [hnetwork, hcounts]
      · obtain rfl := Except.ok.inj hcompiled
        have hrows := hprogress.rows
        dsimp only [Progress.note]
        omega

/-- The forms of a noun: one surface column is also read as a feature, and the text in it has no
segmented form.  Blanked, it gives no tag any more. -/
theorem blanked_text_gave_tag :
    let header := "Paradigm,Class,Lemma,Stem,Form1Surface,Form2Surface,Form2Split\n"
    let file := header ++ "NA,C,l,s,bad,good,<<good>>\n"
    let file' := header ++ "NA,C,l,s,,good,<<good>>\n"
    let s : Sources := ⟨⟨[], [(["NA.csv"], Bytes.ofText file)], []⟩, "", none⟩
    let s' : Sources := ⟨⟨[], [(["NA.csv"], Bytes.ofText file')], []⟩, "", none⟩
    let c : Config := ⟨"NounRoot", "", ["NA"], [], ["Form1Surface"], "NONE", "NONE", [], none, none,
      none, none, "nouns.lexc", none, 3, .standard⟩
    s.Cleaned s' c .regular ∧
      "+bad" ∈ (compile s c .regular SortedSet.empty).alphabet ∧
      "+bad" ∉ (compile s' c .regular SortedSet.empty).alphabet := by
  intro header file file' s s' c
  have htable : (Table.load s'.disk "NA.csv").map Table.sheet =
      (Table.load s.disk "NA.csv").map fun t => (t.cleaned c).sheet := by decide +kernel
  have hpath : c.tablePath "" "NA" = "NA.csv" := by decide +kernel
  have hcleaned : s.Cleaned s' c .regular :=
    Sources.cleaned_of_table rfl hpath hpath htable rfl rfl
  refine ⟨hcleaned, ?_⟩
  decide +kernel

/-- A table of verbs with a usable row, one with a malformed variant beside a usable one, and
one without usable variants. -/
theorem compile_cleaned_verbs :
    let header := "Paradigm,Class,Lemma,Stem,Order,Form1Surface,Form1Split,Form2Surface\n"
    let file := header ++ "VTA,VTA_C,a,a,Ind,nia,ni<<a>>,niaa\n" ++ "VTA,VTA_C,a,a,Cnj,x,a<<b<<c,\n"
    let file' := header ++ "VTA,VTA_C,a,a,Ind,nia,ni<<a>>,\n"
    let s : Sources := ⟨⟨[], [(["VTA.csv"], Bytes.ofText file)], []⟩, "", none⟩
    let s' : Sources := ⟨⟨[], [(["VTA.csv"], Bytes.ofText file')], []⟩, "", none⟩
    let c : Config := ⟨"VerbRoot", "", ["VTA"], [], ["Order"], "NONE", "NONE", [], none, none,
      none, none, "verbs.lexc", none, 3, .standard⟩
    (compile s c .regular SortedSet.empty).outcome.toOption.map Compiled.counts =
        some ⟨2, 1, 1⟩ ∧
      (compile s' c .regular SortedSet.empty).alphabet =
        (compile s c .regular SortedSet.empty).alphabet ∧
      (compile s' c .regular SortedSet.empty).outcome =
        (compile s c .regular SortedSet.empty).outcome.map (fun compiled =>
          { compiled with counts := compiled.counts.unskipped }) := by
  intro header file file' s s' c
  have htable : (Table.load s'.disk "VTA.csv").map Table.sheet =
      (Table.load s.disk "VTA.csv").map fun t => (t.cleaned c).sheet := by decide +kernel
  have hpath : c.tablePath "" "VTA" = "VTA.csv" := by decide +kernel
  have hcleaned : s.Cleaned s' c .regular :=
    Sources.cleaned_of_table rfl hpath hpath htable rfl rfl
  have htags : s.KeepTags c .regular := fun _ _ t _ =>
    t.keepsTags_of_features (by decide +kernel)
  obtain ⟨halphabet, houtcome, -⟩ :=
    compile_cleaned s s' c .regular SortedSet.empty hcleaned htags
  exact ⟨by decide +kernel, halphabet, houtcome⟩

end Morphotactics
