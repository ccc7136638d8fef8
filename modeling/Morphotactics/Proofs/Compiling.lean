import Morphotactics.Compilation
import Morphotactics.Proofs.Building
import Morphotactics.Proofs.DictionaryStems
import Morphotactics.Proofs.Forms

/-!
# What a compilation brings

Compiling goes through tables row by row, with counts and notices on the side.
What is left of it in alphabet and network is told by the forms alone: those of
the rows that could be read, up to the first table that cannot be used.  They
depend on the tables and on the configuration, not on the alphabet to which the
compilation adds.
-/

namespace Morphotactics

/-- The rows of a table, if it can be used. -/
def Sources.rows (s : Sources) (c : Config) (name : String) : Except TableError (List RowReading) :=
  match Table.load s.disk (c.tablePath s.sourceDir name) with
  | .error e => .error e
  | .ok t => t.rows c

/-- The forms of rows. -/
def usableForms (rows : List RowReading) : List Inflection :=
  rows.filterMap fun r => r.form.toOption

/-- The forms of tables that were read, up to the first that cannot be used. -/
def formsOfTables : List (Except TableError (List RowReading)) → List Inflection
  | [] | .error _ :: _ => []
  | .ok rows :: tables => usableForms rows ++ formsOfTables tables

/-- The forms of tables, up to the first table that cannot be used. -/
def Sources.forms (s : Sources) (c : Config) (names : List String) : List Inflection :=
  formsOfTables (names.map (s.rows c))

/-- The forms that a configuration asks for, as they are laid out. -/
def Sources.laidOut (s : Sources) (c : Config) (m : Mode) : List (Layout × Inflection) :=
  (s.forms c (c.tablesFor m)).map fun r => (c.layout m, r)

/-- Adding forms and then others to an alphabet is adding all of them. -/
theorem Alphabet.addForms_append (a : Alphabet) (fs hs : List (Layout × Inflection)) :
    a.addForms (fs ++ hs) = (a.addForms fs).addForms hs :=
  List.foldl_append

/-- Adding forms and then others to a network is adding all of them. -/
theorem Network.addForms_append (g : Network) (fs hs : List (Layout × Inflection)) :
    g.addForms (fs ++ hs) = (g.addForms fs).addForms hs :=
  List.foldl_append

namespace Progress

/-- A later progress that differs by forms: they were added to the alphabet and
to the network. -/
structure Brings (p : Progress) (fs : List (Layout × Inflection)) (p' : Progress) : Prop where
  alphabet : p'.alphabet = p.alphabet.addForms fs
  network : p'.network = p.network.addForms fs

/-- A notice brings no forms. -/
theorem brings_note (p : Progress) (n : Notice) : p.Brings [] (p.note n) := ⟨rfl, rfl⟩

/-- What one stretch of a compilation brings comes before what the next one brings. -/
theorem Brings.trans {p p' p'' : Progress} {fs hs : List (Layout × Inflection)}
    (h : p.Brings fs p') (h' : p'.Brings hs p'') : p.Brings (fs ++ hs) p'' where
  alphabet := by rw [h'.alphabet, h.alphabet, Alphabet.addForms_append]
  network := by rw [h'.network, h.network, Network.addForms_append]

/-- A row with a form adds the symbols of the form to the alphabet, and its chains to the
network and to those that were counted. -/
theorem addRow_of_ok {r : RowReading} {form : Inflection} (hr : r.form = .ok form) (l : Layout)
    (p : Progress) :
    p.addRow l r =
      { alphabet := p.alphabet.addForm l form
        network := p.network.extend (l.chains form)
        counts := { p.counts with
          rows := p.counts.rows + 1
          chains := p.counts.chains + (l.chains form).length }
        notices := p.notices ++ r.warnings.map Notice.variant } := by
  rw [addRow, hr]
  dsimp only
  rw [Layout.run_build]

/-- **A row's step.** -/
theorem brings_addRow (l : Layout) (p : Progress) (r : RowReading) :
    p.Brings (r.form.toOption.toList.map fun form => (l, form)) (p.addRow l r) := by
  cases hr : r.form with
  | error e =>
      rw [addRow, hr]
      exact ⟨rfl, rfl⟩
  | ok form =>
      rw [addRow_of_ok hr]
      exact ⟨rfl, rfl⟩

/-- **A run of rows** brings the forms of those that could be read. -/
theorem brings_rows (l : Layout) (p : Progress) (rows : List RowReading) :
    p.Brings ((usableForms rows).map fun form => (l, form)) (rows.foldl (addRow l) p) := by
  induction rows generalizing p with
  | nil => exact ⟨rfl, rfl⟩
  | cons r rows ih =>
      have hforms : (usableForms (r :: rows)).map (fun form => (l, form)) =
          r.form.toOption.toList.map (fun form => (l, form)) ++
            (usableForms rows).map fun form => (l, form) := by
        rw [usableForms, List.filterMap_cons]
        cases r.form.toOption <;> rfl
      have hrest := ih (p.addRow l r)
      rw [hforms, List.foldl_cons]
      exact (brings_addRow l p r).trans hrest

/-- A table is announced, and then its rows are added if it can be used. -/
theorem addTable_eq (s : Sources) (c : Config) (m : Mode) (p : Progress) (name : String) :
    p.addTable s c m name =
      match s.rows c name with
      | .error e => (p.note (.compilingTable (c.tablePath s.sourceDir name)), .error e)
      | .ok rows =>
        (rows.foldl (addRow (c.layout m))
          (p.note (.compilingTable (c.tablePath s.sourceDir name))), .ok ()) := by
  unfold addTable Sources.rows
  dsimp only
  cases Table.load s.disk (c.tablePath s.sourceDir name) with
  | error e => rfl
  | ok t => cases t.rows c <;> rfl

/-- A table brings the forms of its rows, and none if it cannot be used. -/
theorem brings_addTable (s : Sources) (c : Config) (m : Mode) (p : Progress) (name : String) :
    p.Brings ((usableForms ((s.rows c name).toOption.getD [])).map fun form => (c.layout m, form))
      (p.addTable s c m name).1 := by
  have hnote := p.brings_note (.compilingTable (c.tablePath s.sourceDir name))
  rw [addTable_eq]
  cases s.rows c name with
  | error e => exact hnote
  | ok rows => exact hnote.trans (brings_rows (c.layout m) _ rows)

/-- Goes on with more tables after one that could be used. -/
def thenTables (s : Sources) (c : Config) (m : Mode) (names : List String) :
    Progress × Except TableError Unit → Progress × Except TableError Unit
  | (p, .ok ()) => p.addTables s c m names
  | (p, .error e) => (p, .error e)

/-- **Reading tables.**  Tables bring the forms of their rows. -/
theorem brings_addTables (s : Sources) (c : Config) (m : Mode) (p : Progress)
    (names : List String) :
    p.Brings ((s.forms c names).map fun form => (c.layout m, form))
      (p.addTables s c m names).1 := by
  induction names generalizing p with
  | nil => exact ⟨rfl, rfl⟩
  | cons name names ih =>
      have htable := p.brings_addTable s c m name
      have hstep : p.addTables s c m (name :: names) =
          thenTables s c m names (p.addTable s c m name) := rfl
      rw [hstep, Sources.forms, List.map_cons]
      rw [addTable_eq] at htable ⊢
      cases hrows : s.rows c name with
      | error e =>
          rw [hrows] at htable
          exact htable
      | ok rows =>
          rw [hrows] at htable
          rw [formsOfTables, List.map_append]
          exact htable.trans (ih _)

/-- A dictionary leaves the alphabet as it is, and brings only stems. -/
theorem addDictionary_spec (disk : Disk) (c : Config) (dirs : List String) (p : Progress)
    (name : String) :
    (p.addDictionary disk c dirs name).1.alphabet = p.alphabet ∧
      p.network.HasMoreStems (p.addDictionary disk c dirs name).1.network := by
  unfold addDictionary
  cases Dictionary.locate disk name dirs with
  | error e => exact ⟨rfl, .refl _⟩
  | ok path =>
      dsimp only
      split
      · exact ⟨rfl, .refl _⟩
      · rename_i d classify _
        exact ⟨rfl, d.hasMoreStems_addTo classify p.network⟩

/-- The dictionary of a configuration leaves the alphabet as it is, and brings only stems,
also where it fails. -/
theorem addDictionaries_spec (s : Sources) (c : Config) (m : Mode) (p : Progress) :
    (p.addDictionaries s c m).1.alphabet = p.alphabet ∧
      p.network.HasMoreStems (p.addDictionaries s c m).1.network := by
  cases m with
  | irregular => exact ⟨rfl, .refl _⟩
  | regular =>
      unfold addDictionaries
      cases s.dictionaryDirs with
      | none => exact ⟨rfl, .refl _⟩
      | some dirs =>
          cases c.dictionary with
          | none => exact ⟨rfl, .refl _⟩
          | some name =>
              have hspec := p.addDictionary_spec s.disk c dirs name
              dsimp only
              split <;> rename_i hadded <;> rw [hadded] at hspec <;> exact hspec

end Progress

/-- **What a compilation leaves in the alphabet**: what the configuration
declares, and the symbols of its forms, also where the compilation fails. -/
theorem alphabet_compile (s : Sources) (c : Config) (m : Mode) (a : Alphabet) :
    (compile s c m a).alphabet = (a.declare c.declared).addForms (s.laidOut c m) := by
  have htables := (Progress.brings_addTables s c m (.initial c m a) (c.tablesFor m)).alphabet
  unfold compile
  split
  · rename_i p e heq
    rw [heq] at htables
    exact htables
  · rename_i p heq
    rw [heq] at htables
    have hdictionaries := (p.addDictionaries_spec s c m).1
    split <;> rename_i hadded <;> rw [hadded] at hdictionaries <;>
      exact hdictionaries.trans htables

/-- **What a compilation leaves in the network**: the forms, and more stems where
these have the place for them. -/
theorem network_compile {s : Sources} {c : Config} {m : Mode} {a : Alphabet} {compiled : Compiled}
    (h : (compile s c m a).outcome = .ok compiled) :
    (Network.ofForms (c.rootFor m) (s.laidOut c m)).HasMoreStems compiled.network := by
  have htables := (Progress.brings_addTables s c m (.initial c m a) (c.tablesFor m)).network
  unfold compile at h
  split at h
  · cases h
  · rename_i p heq
    rw [heq] at htables
    have hforms : p.network = Network.ofForms (c.rootFor m) (s.laidOut c m) := htables
    have hstems := (p.addDictionaries_spec s c m).2
    split at h
    · cases h
    · rename_i p' summary hadded
      rw [hadded] at hstems
      obtain rfl := Except.ok.inj h
      rw [← hforms]
      exact hstems

end Morphotactics
