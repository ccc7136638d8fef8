import Morphotactics.Proofs.ColumnNames
import Morphotactics.Proofs.Compiling

/-!
# Cleaned tables

Not all that stands in a table comes to anything.  A record may have a surface text for
which there is no segmented form, or a malformed one; and a record all of whose texts are
of this kind is read as no form at all.  The cleaned table is without such records, and
blank where such texts stood.

Cleaning must not touch what is read besides.  The columns of a row are apart
(`RowColumns.Apart`): no two variants have one surface column, and no surface column
belongs to the headword or to a segmented form, since columns are known by their names.
Only a feature may be read from a surface column, where a configuration asks for it.  So a
cleaned table has the same forms if no text that was blanked also gives a tag
(`forms_cleaned`).
-/

namespace Morphotactics

/-- Steps that may fail give a result if all of them do. -/
theorem exists_of_bind_eq_ok {ε α β : Type} {x : Except ε α} {f : α → Except ε β} {b : β}
    (h : x >>= f = .ok b) : ∃ a, x = .ok a ∧ f a = .ok b := by
  cases x with
  | error e => cases h
  | ok a => exact ⟨a, rfl, h⟩

/-- **Adding variants** one after the other succeeds where all their segmented forms split,
and they come after those that are there. -/
theorem Inflection.withVariants_filterMap {α : Type} {xs : List α} {surface form : α → String}
    {variant? : α → Option Variant} (r : Inflection)
    (h : ∀ x ∈ xs, ∃ v, variant? x = some v ∧ v.surface = surface x ∧
      Segmentation.split (form x) = .ok v.parts) :
    r.withVariants (xs.map fun x => (surface x, form x)) =
      .ok { r with variants := r.variants ++ xs.filterMap variant? } := by
  induction xs generalizing r with
  | nil =>
      rw [List.filterMap_nil, List.append_nil]
      rfl
  | cons x xs ih =>
      obtain ⟨v, hv, hsurface, hparts⟩ := h x List.mem_cons_self
      have hstep : r.withVariant (surface x) (form x) =
          .ok { r with variants := r.variants ++ [v] } := by
        rw [withVariant, hparts, ← hsurface]
        rfl
      have hrest := ih { r with variants := r.variants ++ [v] }
        fun y hy => h y (List.mem_cons_of_mem _ hy)
      rw [withVariants] at hrest
      rw [withVariants, List.map_cons, List.foldlM_cons, hstep, List.filterMap_cons_some hv]
      refine hrest.trans ?_
      rw [List.append_assoc, List.singleton_append]

/-- The columns that a row is read from are apart: the surface columns of variants differ,
and nothing but features is read from them besides. -/
structure RowColumns.Apart (columns : RowColumns) : Prop where
  surface_inj : ∀ v ∈ columns.variants, ∀ w ∈ columns.variants, v.surface = w.surface → v = w
  split_ne : ∀ v ∈ columns.variants, ∀ w ∈ columns.variants, ∀ i, v.split = some i →
    i ≠ w.surface
  fixed_ne : ∀ w ∈ columns.variants, w.surface ∉
    [columns.paradigm, columns.inflClass, columns.headword, columns.stem]

namespace Table

/-! ## Positions of columns -/

/-- At the last position of a name stands the name. -/
theorem getElem?_of_lastIndexOf? {s : String} {l : List String} {i : Nat}
    (h : lastIndexOf? s l = some i) : l[i]? = some s := by
  obtain ⟨p, hlast, rfl⟩ := Option.map_eq_some_iff.mp h
  obtain ⟨hp, hs⟩ := List.mem_filter.mp (List.mem_of_getLast? hlast)
  rw [List.mem_zipIdx_iff_getElem?.mp hp, beq_iff_eq.mp hs]

variable {t : Table}

/-- Columns of different names stand at different places. -/
theorem columnIndex?_inj {a b : String} {i : Nat} (ha : t.columnIndex? a = some i)
    (hb : t.columnIndex? b = some i) : a = b :=
  Option.some.inj ((getElem?_of_lastIndexOf? ha).symm.trans (getElem?_of_lastIndexOf? hb))

/-- A column that has to be there is found where one that may be missing is. -/
theorem columnIndex?_of_columnIndex {a : String} {i : Nat} (h : t.columnIndex a = .ok i) :
    t.columnIndex? a = some i := by
  unfold columnIndex at h
  cases hindex : t.columnIndex? a with
  | none =>
      rw [hindex] at h
      cases h
  | some j =>
      rw [hindex] at h
      rw [Except.ok.inj h]

/-- Looking up several columns one after the other finds where each of them stands. -/
theorem map_columnIndex?_of_mapM {names : List String} {is : List Nat}
    (h : names.mapM t.columnIndex = .ok is) : names.map t.columnIndex? = is.map some := by
  induction names generalizing is with
  | nil =>
      obtain rfl := Except.ok.inj h
      rfl
  | cons name names ih =>
      rw [List.mapM_cons] at h
      obtain ⟨i, hi, h⟩ := exists_of_bind_eq_ok h
      obtain ⟨js, hjs, h⟩ := exists_of_bind_eq_ok h
      obtain rfl := Except.ok.inj h
      rw [List.map_cons, List.map_cons, ih hjs, columnIndex?_of_columnIndex hi]

/-- The positions that are found for names are the positions of these names. -/
theorem mem_iff_of_mapM {names : List String} {is : List Nat}
    (h : names.mapM t.columnIndex = .ok is) {i : Nat} :
    i ∈ is ↔ ∃ name ∈ names, t.columnIndex? name = some i := by
  have hsome : i ∈ is ↔ some i ∈ is.map some := by simp
  rw [hsome, ← map_columnIndex?_of_mapM h, List.mem_map]

/-- A name that does not end like surface columns is not one of them. -/
theorem ne_surfaceColumn {s : String} (h : s.toList.getLast? ≠ some 'e') (i : Nat) :
    s ≠ surfaceColumn i := by
  intro hs
  have hlast : (surfaceColumn i).toList.getLast? = some 'e' := by
    rw [surfaceColumn, String.toList_append, List.getLast?_append]
    rfl
  exact h (hs ▸ hlast)

/-- Where the columns of a row stand. -/
theorem rowColumns_spec {c : Config} {columns : RowColumns} (h : t.rowColumns c = .ok columns) :
    t.columnIndex? "Paradigm" = some columns.paradigm ∧
      t.columnIndex? "Class" = some columns.inflClass ∧
      t.columnIndex? "Lemma" = some columns.headword ∧
      t.columnIndex? "Stem" = some columns.stem ∧
      c.features.mapM t.columnIndex = .ok columns.features ∧
      columns.variants = (t.variantIndices c.maxForms).filterMap t.variantColumns? := by
  obtain ⟨paradigm, hparadigm, h⟩ := exists_of_bind_eq_ok h
  obtain ⟨inflClass, hclass, h⟩ := exists_of_bind_eq_ok h
  obtain ⟨headword, hheadword, h⟩ := exists_of_bind_eq_ok h
  obtain ⟨stem, hstem, h⟩ := exists_of_bind_eq_ok h
  obtain ⟨features, hfeatures, h⟩ := exists_of_bind_eq_ok h
  obtain rfl := Except.ok.inj h
  exact ⟨columnIndex?_of_columnIndex hparadigm, columnIndex?_of_columnIndex hclass,
    columnIndex?_of_columnIndex hheadword, columnIndex?_of_columnIndex hstem, hfeatures, rfl⟩

/-- The columns of a variant stand under the names that its number gives. -/
theorem variantColumns_spec {c : Config} {columns : RowColumns}
    (h : t.rowColumns c = .ok columns) {v : VariantColumns} (hv : v ∈ columns.variants) :
    variantIndex? (surfaceColumn v.index) = some v.index ∧
      t.columnIndex? (surfaceColumn v.index) = some v.surface ∧
      t.columnIndex? (splitColumn v.index) = v.split := by
  obtain ⟨-, -, -, -, -, hvariants⟩ := rowColumns_spec h
  rw [hvariants] at hv
  obtain ⟨i, -, hcolumns⟩ := List.mem_filterMap.mp hv
  obtain ⟨surface, hsurface, rfl⟩ := Option.map_eq_some_iff.mp hcolumns
  exact ⟨variantIndex?_surfaceColumn i, hsurface, rfl⟩

/-- **Columns are apart.**  Their names tell them apart. -/
theorem apart_of_rowColumns {c : Config} {columns : RowColumns}
    (h : t.rowColumns c = .ok columns) : columns.Apart where
  surface_inj := by
    intro v hv w hw hsame
    obtain ⟨hindex, hsurface, hsplit⟩ := variantColumns_spec h hv
    obtain ⟨hindex', hsurface', hsplit'⟩ := variantColumns_spec h hw
    have hname := columnIndex?_inj hsurface (hsame ▸ hsurface')
    have hnumber : v.index = w.index := by
      rw [hname, hindex'] at hindex
      exact (Option.some.inj hindex).symm
    have hsplits : v.split = w.split := by rw [← hsplit, ← hsplit', hnumber]
    cases v
    cases w
    simp_all
  split_ne := by
    intro v hv w hw i hi hsame
    obtain ⟨-, -, hsplit⟩ := variantColumns_spec h hv
    obtain ⟨-, hsurface, -⟩ := variantColumns_spec h hw
    rw [hi, hsame] at hsplit
    have hlast : (splitColumn v.index).toList.getLast? = some 't' := by
      rw [splitColumn, String.toList_append, List.getLast?_append]
      rfl
    refine ne_surfaceColumn ?_ w.index (columnIndex?_inj hsplit hsurface)
    rw [hlast]
    decide
  fixed_ne := by
    intro w hw hmem
    obtain ⟨hparadigm, hclass, hheadword, hstem, -, -⟩ := rowColumns_spec h
    obtain ⟨-, hsurface, -⟩ := variantColumns_spec h hw
    simp only [List.mem_cons, List.not_mem_nil, or_false] at hmem
    obtain hsame | hsame | hsame | hsame := hmem <;> rw [hsame] at hsurface
    · exact ne_surfaceColumn (by decide) w.index (columnIndex?_inj hparadigm hsurface)
    · exact ne_surfaceColumn (by decide) w.index (columnIndex?_inj hclass hsurface)
    · exact ne_surfaceColumn (by decide) w.index (columnIndex?_inj hheadword hsurface)
    · exact ne_surfaceColumn (by decide) w.index (columnIndex?_inj hstem hsurface)

/-! ## Reading a record -/

/-- Whether a record has a surface text for a variant. -/
def hasText (c : Config) (r : Csv.Record) (v : VariantColumns) : Bool :=
  cell r v.surface ≠ "" && cell r v.surface ≠ c.missingForm

/-- The segmented form of a variant, if there is a column for it and it is well-formed. -/
def parts? (r : Csv.Record) (v : VariantColumns) : Option Segmentation :=
  v.split.bind fun i => (Segmentation.split (cell r i)).toOption

/-- The variant that a record has, if it is usable. -/
def variant? (c : Config) (r : Csv.Record) (v : VariantColumns) : Option Variant :=
  if hasText c r v then (parts? r v).map fun parts => ⟨cell r v.surface, parts⟩ else none

/-- The values of the features of a record. -/
def values (c : Config) (columns : RowColumns) (r : Csv.Record) : List String :=
  (columns.features.map (cell r)).filter fun v => v ≠ "" ∧ v ≠ c.missingTag

/-- The form of a record, if one of its variants is usable. -/
def inflection (c : Config) (columns : RowColumns) (r : Csv.Record) : Inflection :=
  ⟨cell r columns.paradigm, cell r columns.inflClass, escape (cell r columns.headword),
    escape (cell r columns.stem), (values c columns r).map tag,
    columns.variants.filterMap (variant? c r)⟩

/-- Reading a variant with its warnings gives the variant that is read without them. -/
theorem variant?_readVariant (c : Config) (l : Location) (r : Csv.Record) (v : VariantColumns) :
    (readVariant c l r v).variant? = variant? c r v := by
  unfold readVariant variant? hasText parts?
  dsimp only
  by_cases hempty : cell r v.surface = ""
  · simp [hempty]
  · by_cases hmissing : cell r v.surface = c.missingForm
    · simp [hmissing]
    · rw [if_neg (not_or.mpr ⟨hempty, hmissing⟩)]
      cases v.split with
      | none => simp
      | some i =>
          cases hsplit : Segmentation.split (cell r i) <;>
            simp [hempty, hmissing, hsplit, Except.toOption]

/-- **What a record gives**: its form, and an error where no variant is usable. -/
theorem form_readRow (t : Table) (c : Config) (columns : RowColumns) (r : Csv.Record) :
    (t.readRow c columns r).form =
      if (inflection c columns r).variants = [] then
        .error ⟨⟨t.name, r.line⟩, cell r columns.paradigm, escape (cell r columns.headword)⟩
      else .ok (inflection c columns r) := by
  have hvariants : (columns.variants.map (readVariant c ⟨t.name, r.line⟩ r)).filterMap
      VariantReading.variant? = columns.variants.filterMap (variant? c r) := by
    have hread : VariantReading.variant? ∘ readVariant c ⟨t.name, r.line⟩ r = variant? c r :=
      funext fun v => variant?_readVariant c _ r v
    rw [List.filterMap_map, hread]
  unfold readRow inflection
  dsimp only
  rw [hvariants]
  cases columns.variants.filterMap (variant? c r) <;> rfl

/-- A record gives a form where one of its variants is usable. -/
theorem form_readRow_eq_ok_iff {t : Table} {c : Config} {columns : RowColumns} {r : Csv.Record}
    {form : Inflection} :
    (t.readRow c columns r).form = .ok form ↔
      (inflection c columns r).variants ≠ [] ∧ inflection c columns r = form := by
  rw [form_readRow]
  by_cases hvariants : (inflection c columns r).variants = []
  · simp [hvariants]
  · simp [hvariants]

/-! ## Cleaning -/

/-- Whether a record has a surface text for a variant that is not usable. -/
def wastes (c : Config) (r : Csv.Record) (v : VariantColumns) : Bool :=
  hasText c r v && (parts? r v).isNone

/-- The record with blanks at the given places. -/
def blankAt (places : List Nat) (r : Csv.Record) : Csv.Record :=
  { r with cells := r.cells.mapIdx fun i s => if i ∈ places then "" else s }

/-- The surface columns in which the text of a record is wasted. -/
def wastedPlaces (c : Config) (columns : RowColumns) (r : Csv.Record) : List Nat :=
  (columns.variants.filter (wastes c r)).map VariantColumns.surface

/-- The record without texts that are wasted. -/
def cleanRecord (c : Config) (columns : RowColumns) (r : Csv.Record) : Csv.Record :=
  blankAt (wastedPlaces c columns r) r

/-- The table without records that have no usable variant, and without texts that are
wasted.  A table that lacks a column stays as it is. -/
def cleaned (c : Config) (t : Table) : Table :=
  match t.rowColumns c with
  | .error _ => t
  | .ok columns =>
    let usable := t.records.filter fun r => (t.readRow c columns r).form.isOk
    { t with records := usable.map (cleanRecord c columns) }

/-- A record gives no tag from a text that is wasted. -/
def TagsApart (c : Config) (columns : RowColumns) (r : Csv.Record) : Prop :=
  ∀ i ∈ columns.features, i ∈ wastedPlaces c columns r → cell r i = c.missingTag

/-- No record of a table that has a usable variant gives a tag from a text that is wasted. -/
def KeepsTags (c : Config) (t : Table) : Prop :=
  ∀ columns, t.rowColumns c = .ok columns → ∀ r ∈ t.records,
    (t.readRow c columns r).form.isOk → TagsApart c columns r

/-- What a table says: its name, its header and the cells of its records, on whatever lines
they stand. -/
def sheet (t : Table) : String × List String × List (List String) :=
  (t.name, t.header, t.records.map Csv.Record.cells)

/-- A record with places blanked has empty cells there and the same ones elsewhere. -/
theorem cell_blankAt (places : List Nat) (r : Csv.Record) (i : Nat) :
    cell (blankAt places r) i = if i ∈ places then "" else cell r i := by
  unfold cell rawCell blankAt
  rw [List.getElem?_mapIdx]
  cases r.cells[i]? with
  | none =>
      have hblank : Text.trim "" = "" := by decide
      simp [hblank]
  | some s =>
      have hblank : Text.trim "" = "" := by decide
      by_cases hi : i ∈ places <;> simp [hi, hblank]

variable {c : Config} {columns : RowColumns} {r : Csv.Record}

/-- The wasted places of a record are the surface columns whose texts are wasted. -/
theorem mem_wastedPlaces {i : Nat} :
    i ∈ wastedPlaces c columns r ↔ ∃ v ∈ columns.variants, wastes c r v ∧ v.surface = i := by
  simp only [wastedPlaces, List.mem_map, List.mem_filter, and_assoc]

/-- A cleaned record has the variants that it had. -/
theorem variant?_cleanRecord (h : columns.Apart) {v : VariantColumns}
    (hv : v ∈ columns.variants) :
    variant? c (cleanRecord c columns r) v = variant? c r v := by
  have hparts : parts? (cleanRecord c columns r) v = parts? r v := by
    unfold parts?
    cases hsplit : v.split with
    | none => rw [Option.bind_none, Option.bind_none]
    | some i =>
        have hplace : i ∉ wastedPlaces c columns r := by
          intro hi
          obtain ⟨w, hw, -, hsame⟩ := mem_wastedPlaces.mp hi
          exact h.split_ne v hv w hw i hsplit hsame.symm
        rw [Option.bind_some, Option.bind_some, cleanRecord, cell_blankAt, if_neg hplace]
  by_cases hwaste : wastes c r v = true
  · have hplace : v.surface ∈ wastedPlaces c columns r :=
      mem_wastedPlaces.mpr ⟨v, hv, hwaste, rfl⟩
    have hnone : parts? r v = none :=
      Option.isNone_iff_eq_none.mp (Bool.and_eq_true_iff.mp hwaste).2
    unfold variant?
    rw [hparts, hnone]
    simp
  · have hplace : v.surface ∉ wastedPlaces c columns r := by
      intro hi
      obtain ⟨w, hw, hwasted, hsame⟩ := mem_wastedPlaces.mp hi
      have heq : w = v := h.surface_inj w hw v hv hsame
      rw [heq] at hwasted
      exact hwaste hwasted
    have hcell : cell (cleanRecord c columns r) v.surface = cell r v.surface := by
      rw [cleanRecord, cell_blankAt, if_neg hplace]
    unfold variant? hasText
    rw [hparts, hcell]

/-- A list keeps what a filter leaves of it if only elements change that do not pass. -/
theorem filter_map_congr {α β : Type} {f g : α → β} {P : β → Bool} {l : List α}
    (h : ∀ a ∈ l, f a = g a ∨ (P (f a) = false ∧ P (g a) = false)) :
    (l.map f).filter P = (l.map g).filter P := by
  induction l with
  | nil => rfl
  | cons a l ih =>
      have htail := ih fun b hb => h b (List.mem_cons_of_mem _ hb)
      rw [List.map_cons, List.map_cons, List.filter_cons, List.filter_cons, htail]
      obtain hsame | ⟨hf, hg⟩ := h a List.mem_cons_self
      · rw [hsame]
      · rw [hf, hg, if_neg Bool.false_ne_true, if_neg Bool.false_ne_true]

/-- A cleaned record has the values that it had, if they stand apart from what is wasted. -/
theorem values_cleanRecord (h : TagsApart c columns r) :
    values c columns (cleanRecord c columns r) = values c columns r := by
  refine filter_map_congr fun i hi => ?_
  rw [cleanRecord, cell_blankAt]
  by_cases hplace : i ∈ wastedPlaces c columns r
  · rw [if_pos hplace, h i hi hplace]
    exact .inr ⟨by simp, by simp⟩
  · rw [if_neg hplace]
    exact .inl rfl

/-- **A cleaned record** has the form that it had. -/
theorem inflection_cleanRecord (h : columns.Apart) (htags : TagsApart c columns r) :
    inflection c columns (cleanRecord c columns r) = inflection c columns r := by
  have hfixed : ∀ i ∈ [columns.paradigm, columns.inflClass, columns.headword, columns.stem],
      cell (cleanRecord c columns r) i = cell r i := by
    intro i hi
    have hplace : i ∉ wastedPlaces c columns r := by
      intro hwasted
      obtain ⟨w, hw, -, rfl⟩ := mem_wastedPlaces.mp hwasted
      exact h.fixed_ne w hw hi
    rw [cleanRecord, cell_blankAt, if_neg hplace]
  have hvariants : columns.variants.filterMap (variant? c (cleanRecord c columns r)) =
      columns.variants.filterMap (variant? c r) :=
    List.filterMap_congr fun v hv => variant?_cleanRecord h hv
  unfold inflection
  rw [hfixed columns.paradigm (by simp), hfixed columns.inflClass (by simp),
    hfixed columns.headword (by simp), hfixed columns.stem (by simp), hvariants,
    values_cleanRecord htags]

/-- **Usual configurations.**  Where no feature is read from a surface column, no text that is
wasted gives a tag. -/
theorem keepsTags_of_features (t : Table) (h : ∀ f ∈ c.features, variantIndex? f = none) :
    t.KeepsTags c := by
  intro columns hcolumns r _ _ i hi hplace
  obtain ⟨-, -, -, -, hfeatures, -⟩ := rowColumns_spec hcolumns
  obtain ⟨f, hf, hindex⟩ := (mem_iff_of_mapM hfeatures).mp hi
  obtain ⟨w, hw, -, rfl⟩ := mem_wastedPlaces.mp hplace
  obtain ⟨hnumber, hsurface, -⟩ := variantColumns_spec hcolumns hw
  rw [← columnIndex?_inj hindex hsurface, h f hf] at hnumber
  cases hnumber

/-! ## Cleaned tables -/

/-- A record gives a form when it has a usable variant. -/
theorem isOk_form_readRow {t : Table} :
    (t.readRow c columns r).form.isOk ↔ (inflection c columns r).variants ≠ [] := by
  rw [form_readRow]
  by_cases hvariants : (inflection c columns r).variants = []
  · simp [hvariants, Except.isOk, Except.toBool]
  · simp [hvariants, Except.isOk, Except.toBool]

/-- The forms of records are those of the usable ones. -/
theorem usableForms_map_readRow (t : Table) (c : Config) (columns : RowColumns)
    (rs : List Csv.Record) :
    usableForms (rs.map (t.readRow c columns)) =
      (rs.filter fun r => (t.readRow c columns r).form.isOk).map (inflection c columns) := by
  induction rs with
  | nil => rfl
  | cons r rs ih =>
      rw [usableForms] at ih ⊢
      rw [List.map_cons, List.filterMap_cons, List.filter_cons, ih]
      by_cases hok : (t.readRow c columns r).form.isOk = true
      · rw [if_pos hok, form_readRow_eq_ok_iff.mpr ⟨isOk_form_readRow.mp hok, rfl⟩]
        rfl
      · rw [if_neg hok]
        cases hread : (t.readRow c columns r).form with
        | error e => rfl
        | ok f =>
            rw [hread] at hok
            exact absurd rfl hok

/-- What is read of a record depends on its cells, not on its line. -/
theorem inflection_congr {r' : Csv.Record} (h : r'.cells = r.cells) :
    inflection c columns r' = inflection c columns r := by
  have hcell : cell r' = cell r := by
    funext i
    rw [cell, rawCell, h, cell, rawCell]
  have hvariant : variant? c r' = variant? c r := by
    funext v
    unfold variant? hasText parts?
    rw [hcell]
  unfold inflection values
  rw [hcell, hvariant]

/-- Two lists are mapped alike if their elements are, place by place. -/
theorem map_eq_map_of_keys {α β γ δ : Type} {f : α → γ} {g : β → γ} {k : α → δ} {k' : β → δ}
    {l : List α} {l' : List β} (hkeys : l.map k = l'.map k')
    (h : ∀ a ∈ l, ∀ b ∈ l', k a = k' b → f a = g b) : l.map f = l'.map g := by
  induction l generalizing l' with
  | nil =>
      obtain rfl := List.map_eq_nil_iff.mp hkeys.symm
      rfl
  | cons a l ih =>
      cases l' with
      | nil => cases hkeys
      | cons b l' =>
          obtain ⟨hkey, hrest⟩ := List.cons.inj hkeys
          rw [List.map_cons, List.map_cons,
            h a List.mem_cons_self b List.mem_cons_self hkey,
            ih hrest fun x hx y hy => h x (List.mem_cons_of_mem _ hx) y (List.mem_cons_of_mem _ hy)]

/-- The columns depend on the name and the header of a table, which cleaning leaves as they
are. -/
theorem rowColumns_of_sheet {t t' : Table} (h : t'.sheet = (t.cleaned c).sheet) :
    t'.rowColumns c = t.rowColumns c := by
  have hsame : (t.cleaned c).name = t.name ∧ (t.cleaned c).header = t.header := by
    unfold cleaned
    cases t.rowColumns c <;> exact ⟨rfl, rfl⟩
  have hname : t'.name = t.name := (congrArg (fun sheet => sheet.1) h).trans hsame.1
  have hheader : t'.header = t.header := (congrArg (fun sheet => sheet.2.1) h).trans hsame.2
  cases t
  cases t'
  obtain rfl := hname
  obtain rfl := hheader
  rfl

/-- **A table that cannot be used** is not cleaned, and cannot be used all the same. -/
theorem rows_of_sheet_error {t t' : Table} (hsheet : t'.sheet = (t.cleaned c).sheet)
    {e : TableError} (h : t.rows c = .error e) : t'.rows c = .error e := by
  unfold rows at h ⊢
  rw [rowColumns_of_sheet hsheet]
  cases ht : t.rowColumns c with
  | error e' =>
      rw [ht] at h
      rw [← h]
      rfl
  | ok columns =>
      rw [ht] at h
      cases h

/-- **A cleaned table** has a row for each form of the table, with that form. -/
theorem rows_of_sheet {t t' : Table} (hsheet : t'.sheet = (t.cleaned c).sheet)
    (htags : t.KeepsTags c) {rows : List RowReading} (h : t.rows c = .ok rows) :
    ∃ rows', t'.rows c = .ok rows' ∧
      rows'.map RowReading.form = (usableForms rows).map Except.ok := by
  have hcolumns : t'.rowColumns c = t.rowColumns c := rowColumns_of_sheet hsheet
  have hcells : t'.records.map Csv.Record.cells = (t.cleaned c).records.map Csv.Record.cells :=
    congrArg (fun sheet => sheet.2.2) hsheet
  cases ht : t.rowColumns c with
  | error e =>
      rw [Table.rows, ht] at h
      cases h
  | ok columns =>
      rw [Table.rows, ht] at h
      obtain rfl := Except.ok.inj h
      have hclean : t'.records.map Csv.Record.cells =
          (t.records.filter fun r => (t.readRow c columns r).form.isOk).map
            fun r => (cleanRecord c columns r).cells := by
        rw [hcells, cleaned, ht, List.map_map]
        rfl
      refine ⟨t'.records.map (t'.readRow c columns), by rw [Table.rows, hcolumns, ht]; rfl, ?_⟩
      rw [usableForms_map_readRow, List.map_map, List.map_map]
      refine map_eq_map_of_keys hclean fun r' _ r hr hsame => ?_
      obtain ⟨hr, husable⟩ := List.mem_filter.mp hr
      have hform : inflection c columns r' = inflection c columns r :=
        (inflection_congr hsame).trans
          (inflection_cleanRecord (apart_of_rowColumns ht) (htags columns ht r hr husable))
      have hvariants : (inflection c columns r').variants ≠ [] :=
        hform ▸ isOk_form_readRow.mp husable
      rw [Function.comp_apply, Function.comp_apply,
        form_readRow_eq_ok_iff.mpr ⟨hvariants, rfl⟩, hform]

end Table

end Morphotactics
