import Morphotactics.Proofs.CleanTables

/-!
# Rows by the names of columns

Who writes a table thinks of its cells by the names of their columns, and not by positions.
`NamedCells` is a record seen in this way, and `NamedCells.row` reads it: which variants are
usable, the form that they are added to one after the other, and what is said about those
that are not usable.  Nothing in it knows where a column stands, in which order the columns
come or how many cells the record has.

`rows_by_names` says that reading a table comes to reading its records by names.  The
columns are looked up once for the whole table, so the proof goes from one list of columns
to all records (`readRow_eq_row`); numbers that have no surface column drop out on both
sides.
-/

namespace Morphotactics

/-- The cells of a record by the names of their columns.  There is none where a table has no
column of the name. -/
abbrev NamedCells := String → Option String

/-- Whether a warning is about a variant that is left out. -/
def VariantWarning.skips : VariantWarning → Bool
  | repaired _ => false
  | noSplitColumn _ _ _ | malformed _ _ _ => true

namespace NamedCells

variable (cells : NamedCells) (c : Config) (l : Location)

/-- The text under a name, which is empty where there is no cell. -/
def text (name : String) : String := (cells name).getD ""

/-- The values of the features, in the order of the configuration. -/
def values : List String :=
  (c.features.map cells.text).filter fun v => v ≠ "" ∧ v ≠ c.missingTag

/-- The surface text of the variant with a number, if there is one. -/
def surface? (i : Nat) : Option String :=
  (cells (Table.surfaceColumn i)).filter fun s => s ≠ "" ∧ s ≠ c.missingForm

/-- The variant with a number can be used: there is a text for it, and a segmented form that
splits. -/
structure Usable (i : Nat) : Prop where
  bound : i < c.maxForms
  surface : ∃ s, cells (Table.surfaceColumn i) = some s ∧ s ≠ "" ∧ s ≠ c.missingForm
  split : ∃ form parts, cells (Table.splitColumn i) = some form ∧
    Segmentation.split form = .ok parts

/-- The variant with a number, if the texts for it are there and split. -/
def variant? (i : Nat) : Option Variant :=
  (cells.surface? c i).bind fun surface =>
    (cells (Table.splitColumn i)).bind fun form =>
      (Segmentation.split form).toOption.map fun parts => ⟨surface, parts⟩

variable {cells c l}

/-- A surface text is a cell that is neither empty nor the word for a missing form. -/
theorem surface?_eq_some_iff {i : Nat} {s : String} :
    cells.surface? c i = some s ↔
      cells (Table.surfaceColumn i) = some s ∧ s ≠ "" ∧ s ≠ c.missingForm := by
  rw [surface?, Option.filter_eq_some_iff, decide_eq_true_iff]

/-- The surface text of a variant whose cell is there. -/
theorem surface?_of_eq_some {i : Nat} {s : String} (h : cells (Table.surfaceColumn i) = some s) :
    cells.surface? c i = if s = "" ∨ s = c.missingForm then none else some s := by
  rw [surface?, h, Option.filter_some]
  by_cases hempty : s = ""
  · simp [hempty]
  · by_cases hmissing : s = c.missingForm
    · simp [hmissing]
    · simp [hempty, hmissing]

/-- A variant is its surface text and the parts of its segmented form. -/
theorem variant?_eq_some_iff {i : Nat} {v : Variant} :
    cells.variant? c i = some v ↔ cells.surface? c i = some v.surface ∧
      ∃ form, cells (Table.splitColumn i) = some form ∧ Segmentation.split form = .ok v.parts := by
  obtain ⟨surface, parts⟩ := v
  simp [variant?, Option.bind_eq_some_iff, toOption_eq_some_iff]

/-- A number is usable when it is below the bound and has a variant. -/
theorem usable_iff_isSome {i : Nat} :
    cells.Usable c i ↔ i < c.maxForms ∧ (cells.variant? c i).isSome := by
  rw [Option.isSome_iff_exists]
  constructor
  · rintro ⟨hi, ⟨s, hs⟩, form, parts, hform, hparts⟩
    exact ⟨hi, ⟨s, parts⟩, variant?_eq_some_iff.mpr
      ⟨surface?_eq_some_iff.mpr hs, form, hform, hparts⟩⟩
  · rintro ⟨hi, v, hv⟩
    obtain ⟨hs, form, hform, hparts⟩ := variant?_eq_some_iff.mp hv
    exact ⟨hi, ⟨v.surface, surface?_eq_some_iff.mp hs⟩, form, v.parts, hform, hparts⟩

instance (i : Nat) : Decidable (cells.Usable c i) := decidable_of_iff _ usable_iff_isSome.symm

variable (cells c l)

/-- The numbers of the usable variants. -/
def usable : List Nat := (List.range c.maxForms).filter fun i => cells.Usable c i

/-- The error of a record without usable variants. -/
def noVariants : NoVariants := ⟨l, cells.text "Paradigm", escape (cells.text "Lemma")⟩

/-- The form without variants. -/
def bare : Inflection :=
  .ofCells (cells.text "Paradigm") (cells.text "Class") (cells.text "Lemma") (cells.text "Stem")
    (cells.values c)

/-- The texts from which the usable variants are added. -/
def usableTexts : List (String × String) :=
  (cells.usable c).map fun i =>
    (cells.text (Table.surfaceColumn i), cells.text (Table.splitColumn i))

/-- The form of a record. -/
def form : Except NoVariants Inflection :=
  if cells.usable c = [] then .error (cells.noVariants l)
  else ((cells.bare c).withVariants (cells.usableTexts c)).mapError fun _ => cells.noVariants l

/-- The boundaries that have to be put into the segmented form of a variant. -/
def repairs (i : Nat) : List Repair :=
  match cells.surface? c i, cells (Table.splitColumn i) with
  | some _, some form => Segmentation.repairs form
  | _, _ => []

/-- The warning that a variant is left out, if there is a text for it. -/
def skipping? (i : Nat) : Option VariantWarning :=
  (cells.surface? c i).bind fun surface =>
    match cells (Table.splitColumn i) with
    | none => some (.noSplitColumn l surface i)
    | some form =>
      match Segmentation.split form with
      | .ok _ => none
      | .error e => some (.malformed l surface e)

/-- All that is said about a variant. -/
def warningsOf (i : Nat) : List VariantWarning :=
  (cells.repairs c i).map .repaired ++ (cells.skipping? c l i).toList

/-- **What a record gives**, by the names of its columns. -/
def row : RowReading := ⟨l, cells.form c l, (List.range c.maxForms).flatMap (cells.warningsOf c l)⟩

/-! ## What is usable -/

variable {cells c l}

/-- The usable numbers of a record. -/
theorem mem_usable {i : Nat} : i ∈ cells.usable c ↔ cells.Usable c i := by
  rw [usable, List.mem_filter, List.mem_range, decide_eq_true_iff]
  exact and_iff_right_of_imp Usable.bound

/-- The usable numbers are listed in ascending order. -/
theorem pairwise_usable : (cells.usable c).Pairwise (· < ·) :=
  List.Pairwise.filter _ List.pairwise_lt_range

/-- Nothing of a record is usable when no number is. -/
theorem usable_eq_nil_iff : cells.usable c = [] ↔ ∀ i, ¬cells.Usable c i := by
  simp only [List.eq_nil_iff_forall_not_mem, mem_usable]

/-- The variants of a record are those of its usable numbers. -/
theorem filterMap_usable :
    (cells.usable c).filterMap (cells.variant? c) =
      (List.range c.maxForms).filterMap (cells.variant? c) := by
  rw [usable, List.filterMap_filter]
  refine List.filterMap_congr fun i hi => ?_
  by_cases husable : cells.Usable c i
  · simp [husable]
  · have hnone : cells.variant? c i = none := by
      rw [usable_iff_isSome, not_and, Option.not_isSome_iff_eq_none] at husable
      exact husable (List.mem_range.mp hi)
    simp [husable, hnone]

/-- **The usable variants can be added** one after the other. -/
theorem withVariants_usableTexts :
    (cells.bare c).withVariants (cells.usableTexts c) =
      .ok { cells.bare c with
        variants := (List.range c.maxForms).filterMap (cells.variant? c) } := by
  have htexts : ∀ i ∈ cells.usable c, ∃ v, cells.variant? c i = some v ∧
      v.surface = cells.text (Table.surfaceColumn i) ∧
      Segmentation.split (cells.text (Table.splitColumn i)) = .ok v.parts := by
    intro i hi
    obtain ⟨-, ⟨s, hs⟩, form, parts, hform, hparts⟩ := mem_usable.mp hi
    refine ⟨⟨s, parts⟩, ?_, ?_, ?_⟩
    · exact variant?_eq_some_iff.mpr ⟨surface?_eq_some_iff.mpr hs, form, hform, hparts⟩
    · rw [text, hs.1, Option.getD_some]
    · rw [text, hform, Option.getD_some, hparts]
  rw [usableTexts, Inflection.withVariants_filterMap _ htexts, filterMap_usable]
  rfl

/-- **The form by its variants.** -/
theorem form_eq :
    cells.form c l =
      if (List.range c.maxForms).filterMap (cells.variant? c) = [] then .error (cells.noVariants l)
      else .ok { cells.bare c with
        variants := (List.range c.maxForms).filterMap (cells.variant? c) } := by
  have hnil : cells.usable c = [] ↔
      (List.range c.maxForms).filterMap (cells.variant? c) = [] := by
    rw [List.filterMap_eq_nil_iff, usable_eq_nil_iff]
    simp only [usable_iff_isSome, List.mem_range, not_and, Option.not_isSome_iff_eq_none]
  rw [form, withVariants_usableTexts]
  simp only [hnil]
  rfl

/-! ## What is left out -/

/-- A variant gives one warning that it is left out, or none. -/
theorem filter_warningsOf (i : Nat) :
    (cells.warningsOf c l i).filter VariantWarning.skips = (cells.skipping? c l i).toList := by
  have hrepairs : ((cells.repairs c i).map VariantWarning.repaired).filter
      VariantWarning.skips = [] := by
    rw [List.filter_map, List.map_eq_nil_iff, List.filter_eq_nil_iff]
    exact fun _ _ => Bool.false_ne_true
  have hskipping : ∀ w ∈ (cells.skipping? c l i).toList, w.skips := by
    intro w hw
    obtain ⟨surface, -, hwarning⟩ := Option.bind_eq_some_iff.mp (Option.mem_toList.mp hw)
    split at hwarning
    · obtain rfl := Option.some.inj hwarning
      rfl
    · split at hwarning
      · cases hwarning
      · obtain rfl := Option.some.inj hwarning
        rfl
  rw [warningsOf, List.filter_append, hrepairs, List.nil_append, List.filter_eq_self.mpr hskipping]

/-- **A variant is left out** if there is a text for it that cannot be used. -/
theorem isSome_skipping?_iff {i : Nat} (hi : i < c.maxForms) :
    (cells.skipping? c l i).isSome ↔ (cells.surface? c i).isSome ∧ ¬cells.Usable c i := by
  rw [usable_iff_isSome, and_iff_right hi, skipping?, variant?]
  cases cells.surface? c i with
  | none => simp
  | some surface =>
      cases cells (Table.splitColumn i) with
      | none => simp
      | some form => cases hparts : Segmentation.split form <;> simp [hparts, Except.toOption]

/-- The warning names the place and the text. -/
theorem message_skipping? {i : Nat} {w : VariantWarning} (h : cells.skipping? c l i = some w) :
    ∃ surface reason, cells.surface? c i = some surface ∧
      w.message = l.text ++ ": skipping form " ++ Text.quoted surface ++ ": " ++ reason := by
  obtain ⟨surface, hsurface, hwarning⟩ := Option.bind_eq_some_iff.mp h
  refine ⟨surface, ?_⟩
  split at hwarning
  · obtain rfl := Option.some.inj hwarning
    have hcut : ": no Form" = ": " ++ "no Form" := by decide
    refine ⟨"no Form" ++ toString i ++ "Split column", hsurface, ?_⟩
    rw [VariantWarning.message, hcut]
    simp only [String.append_assoc]
  · split at hwarning
    · cases hwarning
    · rename_i e _
      obtain rfl := Option.some.inj hwarning
      exact ⟨e.message, hsurface, rfl⟩

end NamedCells

namespace Table

variable {t : Table} {header : List String} {c : Config} {l : Location} {r : Csv.Record}

/-- A cell is found by the name of its column where it is found by the position that was
looked up. -/
theorem under?_eq (hheader : t.header = header.map Text.trim) (r : Csv.Record) (name : String) :
    under? header r.cells name = (t.columnIndex? name).map (cell r) := by
  rw [columnIndex?, hheader, map_cell_lastIndexOf?]

/-- **One variant**, read from its columns and by its number. -/
theorem readVariant_eq (hheader : t.header = header.map Text.trim) {i : Nat} {v : VariantColumns}
    (hv : t.variantColumns? i = some v) :
    readVariant c l r v = ⟨NamedCells.variant? (under? header r.cells) c i,
      NamedCells.warningsOf (under? header r.cells) c l i⟩ := by
  obtain ⟨surface, hsurface, rfl⟩ := Option.map_eq_some_iff.mp hv
  have hname : under? header r.cells (surfaceColumn i) = some (cell r surface) := by
    rw [under?_eq hheader, hsurface, Option.map_some]
  have hsplit := under?_eq hheader r (splitColumn i)
  have htext := NamedCells.surface?_of_eq_some (c := c) hname
  unfold readVariant NamedCells.variant? NamedCells.warningsOf NamedCells.repairs
    NamedCells.skipping?
  rw [htext, hsplit]
  dsimp only
  by_cases hmissing : cell r surface = "" ∨ cell r surface = c.missingForm
  · rw [if_pos hmissing, if_pos hmissing]
    rfl
  · rw [if_neg hmissing, if_neg hmissing]
    cases t.columnIndex? (splitColumn i) with
    | none => rfl
    | some j => cases hparts : Segmentation.split (cell r j) <;> simp [hparts, Except.toOption]

/-- Numbers without a surface column give nothing. -/
theorem warningsOf_of_not_mem (hheader : t.header = header.map Text.trim) {i : Nat}
    (hi : t.variantColumns? i = none) :
    NamedCells.variant? (under? header r.cells) c i = none ∧
      NamedCells.warningsOf (under? header r.cells) c l i = [] := by
  have hname : under? header r.cells (surfaceColumn i) = none := by
    rw [under?_eq hheader, Option.map_eq_none_iff]
    exact Option.map_eq_none_iff.mp hi
  have hsurface : NamedCells.surface? (under? header r.cells) c i = none := by
    rw [NamedCells.surface?, hname]
    rfl
  constructor
  · rw [NamedCells.variant?, hsurface]
    rfl
  · unfold NamedCells.warningsOf NamedCells.repairs NamedCells.skipping?
    rw [hsurface]
    rfl

/-- What all variants of a table give is what the numbers below the bound give, where a
number without a surface column gives nothing. -/
theorem flatMap_variantColumns {α : Type} {bound : Nat} {f : VariantColumns → List α}
    {g : Nat → List α} (hsome : ∀ i v, t.variantColumns? i = some v → f v = g i)
    (hnone : ∀ i, t.variantColumns? i = none → g i = []) :
    ((t.variantIndices bound).filterMap t.variantColumns?).flatMap f =
      (List.range bound).flatMap g := by
  rw [variantIndices_eq_filter]
  induction List.range bound with
  | nil => rfl
  | cons i is ih =>
      rw [List.flatMap_cons, ← ih, List.filter_cons]
      cases hi : t.variantColumns? i with
      | none =>
          rw [hnone i hi, List.nil_append]
          split
          · rw [List.filterMap_cons_none hi]
          · rfl
      | some v =>
          have hmem : surfaceColumn i ∈ t.header := by
            obtain ⟨j, hj, -⟩ := Option.map_eq_some_iff.mp hi
            exact isSome_lastIndexOf?.mp (Option.isSome_of_eq_some hj)
          rw [if_pos (decide_eq_true hmem), List.filterMap_cons_some hi, List.flatMap_cons,
            hsome i v hi]

/-- The cell at the position of a column is the text under its name. -/
theorem cell_eq_text (hheader : t.header = header.map Text.trim) {name : String} {i : Nat}
    (h : t.columnIndex? name = some i) :
    cell r i = NamedCells.text (under? header r.cells) name := by
  rw [NamedCells.text, under?_eq hheader, h, Option.map_some, Option.getD_some]

/-- The cells of features, by position and by name. -/
theorem map_cell_features (hheader : t.header = header.map Text.trim) {names : List String}
    {is : List Nat} (h : names.mapM t.columnIndex = .ok is) :
    is.map (cell r) = names.map (NamedCells.text (under? header r.cells)) := by
  have hcells : (is.map some).map (fun i => (i.map (cell r)).getD "") =
      (names.map t.columnIndex?).map fun i => (i.map (cell r)).getD "" := by
    rw [map_columnIndex?_of_mapM h]
  rw [List.map_map, List.map_map] at hcells
  refine hcells.trans (List.map_congr_left fun name _ => ?_)
  rw [Function.comp_apply, NamedCells.text, under?_eq hheader]

/-- **One record**, read from its columns and by their names. -/
theorem readRow_eq_row (hheader : t.header = header.map Text.trim) {columns : RowColumns}
    (hcolumns : t.rowColumns c = .ok columns) (r : Csv.Record) :
    t.readRow c columns r = NamedCells.row (under? header r.cells) c ⟨t.name, r.line⟩ := by
  obtain ⟨hparadigm, hclass, hheadword, hstem, hfeatures, hvariants⟩ := rowColumns_spec hcolumns
  have hforms : columns.variants.filterMap (variant? c r) =
      (List.range c.maxForms).filterMap (NamedCells.variant? (under? header r.cells) c) := by
    rw [List.filterMap_eq_flatMap_toList, List.filterMap_eq_flatMap_toList, hvariants]
    refine flatMap_variantColumns (fun i v hv => ?_) fun i hi => ?_
    · rw [← variant?_readVariant c ⟨t.name, r.line⟩, readVariant_eq hheader hv]
    · rw [(warningsOf_of_not_mem (l := ⟨t.name, r.line⟩) hheader hi).1]
      rfl
  have hinflection : inflection c columns r =
      { NamedCells.bare (under? header r.cells) c with
        variants := (List.range c.maxForms).filterMap
          (NamedCells.variant? (under? header r.cells) c) } := by
    unfold inflection values
    rw [hforms, map_cell_features hheader hfeatures, cell_eq_text hheader hparadigm,
      cell_eq_text hheader hclass, cell_eq_text hheader hheadword, cell_eq_text hheader hstem]
    rfl
  have hform : (t.readRow c columns r).form =
      NamedCells.form (under? header r.cells) c ⟨t.name, r.line⟩ := by
    rw [form_readRow, hinflection, NamedCells.form_eq, cell_eq_text hheader hparadigm,
      cell_eq_text hheader hheadword]
    rfl
  have hwarnings : (t.readRow c columns r).warnings = (List.range c.maxForms).flatMap
      (NamedCells.warningsOf (under? header r.cells) c ⟨t.name, r.line⟩) := by
    have hread : (t.readRow c columns r).warnings = columns.variants.flatMap
        fun v => (readVariant c ⟨t.name, r.line⟩ r v).warnings := List.flatMap_map _ _ _
    rw [hread, hvariants]
    refine flatMap_variantColumns (fun i v hv => ?_) fun i hi => ?_
    · rw [readVariant_eq hheader hv]
    · exact (warningsOf_of_not_mem hheader hi).2
  rw [NamedCells.row, ← hform, ← hwarnings]
  rfl

/-- A table that has all columns has their positions. -/
theorem exists_rowColumns
    (h : ∀ name ∈ ["Paradigm", "Class", "Lemma", "Stem"] ++ c.features, name ∈ t.header) :
    ∃ columns, t.rowColumns c = .ok columns := by
  have hindex : ∀ name ∈ t.header, ∃ i, t.columnIndex name = .ok i := by
    intro name hname
    obtain ⟨i, hi⟩ := Option.isSome_iff_exists.mp (isSome_lastIndexOf?.mpr hname)
    exact ⟨i, by rw [columnIndex, columnIndex?, hi]⟩
  have hfeatures : ∀ names : List String, (∀ name ∈ names, name ∈ t.header) →
      ∃ is, names.mapM t.columnIndex = .ok is := by
    intro names hnames
    induction names with
    | nil => exact ⟨[], rfl⟩
    | cons name names ih =>
        obtain ⟨i, hi⟩ := hindex name (hnames name List.mem_cons_self)
        obtain ⟨is, his⟩ := ih fun n hn => hnames n (List.mem_cons_of_mem _ hn)
        exact ⟨i :: is, by rw [List.mapM_cons, hi, his]; rfl⟩
  obtain ⟨paradigm, hparadigm⟩ := hindex "Paradigm" (h _ (by simp))
  obtain ⟨inflClass, hclass⟩ := hindex "Class" (h _ (by simp))
  obtain ⟨headword, hheadword⟩ := hindex "Lemma" (h _ (by simp))
  obtain ⟨stem, hstem⟩ := hindex "Stem" (h _ (by simp))
  obtain ⟨features, hfeatures⟩ := hfeatures c.features fun name hname =>
    h name (List.mem_append_right _ hname)
  exact ⟨_, by rw [rowColumns, hparadigm, hclass, hheadword, hstem, hfeatures]; rfl⟩

end Table

/-- **Rows by names.**  A table that has the columns for headword, stem, class, paradigm and
all features gives one row for each record, in their order, and a row depends on nothing but
the place of the record and its cells by the names of their columns: the last column of a
name counts, and records that are too short have empty cells there.

The row is an error, with place, paradigm and headword, if no variant is usable, and only
then.  Otherwise it is the form of the cells to which the usable variants are added in
ascending order of their numbers.  One warning that a variant is left out comes for each
number that has a text but is not usable, in ascending order too, and none else. -/
theorem rows_by_names (name : String) (header : List String) (records : List Csv.Record)
    (c : Config)
    (hcolumns : ∀ column ∈ ["Paradigm", "Class", "Lemma", "Stem"] ++ c.features,
      column ∈ header.map Text.trim) :
    (Table.mk name (header.map Text.trim) records).rows c =
        .ok (records.map fun r =>
          NamedCells.row (Table.under? header r.cells) c ⟨name, r.line⟩) ∧
      ∀ (cells : NamedCells) (l : Location),
        (cells.row c l).location = l ∧
        ((cells.row c l).form =
            .error ⟨l, cells.text "Paradigm", escape (cells.text "Lemma")⟩ ↔
          ∀ i, ¬cells.Usable c i) ∧
        ((∃ i, cells.Usable c i) → ∃ numbers : List Nat, numbers.Pairwise (· < ·) ∧
          (∀ i, i ∈ numbers ↔ cells.Usable c i) ∧
          ∃ form,
            (Inflection.ofCells (cells.text "Paradigm") (cells.text "Class")
              (cells.text "Lemma") (cells.text "Stem") (cells.values c)).withVariants
                (numbers.map fun i =>
                  (cells.text (Table.surfaceColumn i), cells.text (Table.splitColumn i))) =
              .ok form ∧ (cells.row c l).form = .ok form) ∧
        (cells.row c l).warnings.filter VariantWarning.skips =
          (List.range c.maxForms).filterMap (cells.skipping? c l) ∧
        ∀ i < c.maxForms,
          ((cells.skipping? c l i).isSome ↔ (cells.surface? c i).isSome ∧ ¬cells.Usable c i) ∧
          ∀ w, cells.skipping? c l i = some w → ∃ surface reason,
            cells.surface? c i = some surface ∧
            w.message = l.text ++ ": skipping form " ++ Text.quoted surface ++ ": " ++ reason := by
  obtain ⟨columns, hfound⟩ := Table.exists_rowColumns
    (t := ⟨name, header.map Text.trim, records⟩) hcolumns
  refine ⟨?_, fun cells l => ⟨rfl, ?_, fun hsome => ?_, ?_, fun i hi =>
    ⟨NamedCells.isSome_skipping?_iff hi, fun w hw => NamedCells.message_skipping? hw⟩⟩⟩
  · rw [Table.rows, hfound]
    exact congrArg Except.ok (List.map_congr_left fun r _ => Table.readRow_eq_row rfl hfound r)
  · rw [← NamedCells.usable_eq_nil_iff]
    change cells.form c l = .error (cells.noVariants l) ↔ _
    rw [NamedCells.form, NamedCells.withVariants_usableTexts]
    split
    · rename_i hnil
      exact iff_of_true rfl hnil
    · rename_i hnil
      refine iff_of_false (fun hform => ?_) hnil
      cases hform
  · refine ⟨cells.usable c, NamedCells.pairwise_usable, fun i => NamedCells.mem_usable, _,
      NamedCells.withVariants_usableTexts, ?_⟩
    have hne : cells.usable c ≠ [] := by
      rw [Ne, NamedCells.usable_eq_nil_iff, not_forall_not]
      exact hsome
    change cells.form c l = _
    rw [NamedCells.form, if_neg hne, NamedCells.withVariants_usableTexts]
    rfl
  · change ((List.range c.maxForms).flatMap (cells.warningsOf c l)).filter _ = _
    rw [List.filter_flatMap, List.filterMap_eq_flatMap_toList]
    exact List.flatMap_congr fun i _ => NamedCells.filter_warningsOf i

/-- A sheet of verbs with blanks in the header, the columns of variants in any order, one of
them without a segmented form, and two columns for the headword.  The first record has one
usable variant of three; the second one ends before its forms. -/
theorem rows_by_names_of_ragged_sheet :
    let header := [" Lemma", "Form2Split", "Form2Surface ", "Paradigm", "Class", "Stem", "Lemma",
      "Form1Surface", "Order", "Form10Surface", "Form10Split"]
    let verb : Csv.Record := ⟨2, ["x", "ni<<aaba'w>>aa", " niaaba'waa", "VTA", "VTA_C", "aaba'w",
      "aaba' ", "aaba'w", "Ind", "broken", "a<<b<<c"]⟩
    let short : Csv.Record := ⟨3, ["x", "<<a>>", "NONE", "VTA", "VTA_C"]⟩
    let c : Config := ⟨"VerbRoot", "", ["VTA"], [], ["Order"], "NONE", "NONE", [], none, none,
      none, none, "verbs.lexc", none, 11, .standard⟩
    let t : Table := ⟨"VTA.csv", header.map Text.trim, [verb, short]⟩
    let cells : NamedCells := Table.under? header verb.cells
    (∀ column ∈ ["Paradigm", "Class", "Lemma", "Stem"] ++ c.features,
        column ∈ header.map Text.trim) ∧
      t.rows c = .ok [cells.row c ⟨"VTA.csv", 2⟩,
        NamedCells.row (Table.under? header short.cells) c ⟨"VTA.csv", 3⟩] ∧
      cells.usable c = [2] ∧
      (cells.row c ⟨"VTA.csv", 2⟩).form.toOption =
        some ⟨"VTA", "VTA_C", "aaba'", "aaba'w", ["+Ind"],
          [⟨"niaaba'waa", ⟨"ni", "aaba'w", "aa"⟩⟩]⟩ ∧
      ((cells.row c ⟨"VTA.csv", 2⟩).warnings.filter VariantWarning.skips).map
          VariantWarning.message =
        ["VTA.csv:2: skipping form \"aaba'w\": no Form1Split column",
          "VTA.csv:2: skipping form \"broken\": Invalid form \"a<<b<<c\": " ++
            "expected exactly two morpheme boundaries, found [<< << >>]"] ∧
      (NamedCells.row (Table.under? header short.cells) c ⟨"VTA.csv", 3⟩).form =
        .error ⟨⟨"VTA.csv", 3⟩, "VTA", ""⟩ := by
  intro header verb short c t cells
  have hcolumns : ∀ column ∈ ["Paradigm", "Class", "Lemma", "Stem"] ++ c.features,
      column ∈ header.map Text.trim := by
    decide +kernel
  obtain ⟨hrows, hrow⟩ := rows_by_names "VTA.csv" header [verb, short] c hcolumns
  obtain ⟨-, herror, -⟩ := hrow (Table.under? header short.cells) ⟨"VTA.csv", 3⟩
  have hunusable : NamedCells.usable (Table.under? header short.cells) c = [] := by decide +kernel
  have hvalue : NamedCells.noVariants (Table.under? header short.cells) ⟨"VTA.csv", 3⟩ =
      ⟨⟨"VTA.csv", 3⟩, "VTA", ""⟩ := by decide +kernel
  refine ⟨hcolumns, hrows, by decide +kernel, by decide +kernel, by decide +kernel, ?_⟩
  rw [← hvalue]
  exact herror.mpr (NamedCells.usable_eq_nil_iff.mp hunusable)

end Morphotactics
