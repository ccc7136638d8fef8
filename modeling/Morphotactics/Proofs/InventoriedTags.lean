import Morphotactics.Proofs.CleanTables
import Morphotactics.Proofs.RejectedTables

/-!
# Tags of rows and values of the inventory

Tables are gone through twice: rows are read record by record, with all features of a
record at once, and the inventory takes them feature by feature, with all records at once.
Each leaves out blank cells, and each has its own way with the word for a missing tag: no
tag comes of it, but the inventory tells it as the epsilon.

`Table.mem_tags_of_row` says which cells the tags of a row come from, and
`Inventory.mem_valuesUnder_iff` which cells the values of a feature do.  The cells are the
same ones, so tags and values agree but for that word.
-/

namespace Morphotactics

namespace Table

variable {t : Table} {c : Config} {columns : RowColumns} {rows : List RowReading}
  {r : Csv.Record} {form : Inflection} {f g s x : String} {i : Nat}

/-- The cell of a record under the name of a column, cut of blanks, where the table has such
a column. -/
def cellUnder? (t : Table) (r : Csv.Record) (column : String) : Option String :=
  (t.columnIndex? column).map (cell r)

/-- A record has the word for a missing tag under a feature. -/
def Misses (t : Table) (c : Config) (f : String) : Prop :=
  c.missingTag ≠ "" ∧ ∃ r ∈ t.records, t.cellUnder? r f = some c.missingTag

/-- A record has a text under a feature that is not the word for a missing tag, and where
the record is read as a form, the form has the tag of this text. -/
def Gives (t : Table) (c : Config) (f x : String) : Prop :=
  x ≠ "" ∧ x ≠ c.missingTag ∧
    ∃ (i : Nat) (r : Csv.Record), t.records[i]? = some r ∧ t.cellUnder? r f = some x ∧
      ∀ (rows : List RowReading) (row : RowReading) (form : Inflection), t.rows c = .ok rows →
        rows[i]? = some row → row.form = .ok form → "+" ++ escape x ∈ form.tags

/-- A table gives rows when its columns are found, and then one for each record. -/
theorem rows_eq_ok_iff :
    t.rows c = .ok rows ↔
      ∃ columns, t.rowColumns c = .ok columns ∧ t.records.map (t.readRow c columns) = rows := by
  rw [Table.rows]
  cases t.rowColumns c <;> simp [Except.map]

/-- **Tags by cells.**  The tags of a row are those of the cells under features that are not
blank and not the word for a missing tag. -/
theorem mem_tags_of_row (hrows : t.rows c = .ok rows) {row : RowReading}
    (hrow : rows[i]? = some row) (hform : row.form = .ok form) :
    ∃ r, t.records[i]? = some r ∧ ∀ g, g ∈ form.tags ↔
      ∃ f ∈ c.features, ∃ s, t.cellUnder? r f = some s ∧ s ≠ "" ∧ s ≠ c.missingTag ∧
        tag s = g := by
  obtain ⟨columns, hcolumns, rfl⟩ := rows_eq_ok_iff.mp hrows
  rw [List.getElem?_map, Option.map_eq_some_iff] at hrow
  obtain ⟨r, hr, rfl⟩ := hrow
  obtain ⟨-, rfl⟩ := form_readRow_eq_ok_iff.mp hform
  obtain ⟨-, -, -, -, hfeatures, -⟩ := rowColumns_spec hcolumns
  refine ⟨r, hr, fun g => ?_⟩
  simp only [inflection, values, List.mem_map, List.mem_filter, decide_eq_true_iff,
    mem_iff_of_mapM hfeatures, cellUnder?, Option.map_eq_some_iff]
  constructor
  · rintro ⟨s, ⟨⟨i, ⟨f, hf, hi⟩, rfl⟩, hblank, hmissing⟩, rfl⟩
    exact ⟨f, hf, _, ⟨i, hi, rfl⟩, hblank, hmissing, rfl⟩
  · rintro ⟨f, hf, s, ⟨i, hi, rfl⟩, hblank, hmissing, rfl⟩
    exact ⟨_, ⟨⟨i, ⟨f, hf, hi⟩, rfl⟩, hblank, hmissing⟩, rfl⟩

/-- A cell under a feature gives its tag to the row. -/
theorem gives_iff (hf : f ∈ c.features) :
    t.Gives c f x ↔
      x ≠ "" ∧ x ≠ c.missingTag ∧ ∃ r ∈ t.records, t.cellUnder? r f = some x := by
  constructor
  · rintro ⟨hblank, hmissing, i, r, hr, hcell, -⟩
    exact ⟨hblank, hmissing, r, List.mem_of_getElem? hr, hcell⟩
  · rintro ⟨hblank, hmissing, r, hr, hcell⟩
    obtain ⟨i, hi⟩ := List.mem_iff_getElem?.mp hr
    refine ⟨hblank, hmissing, i, r, hi, hcell, fun rows row form hrows hrow hform => ?_⟩
    obtain ⟨r', hr', htags⟩ := mem_tags_of_row hrows hrow hform
    obtain rfl : r = r' := Option.some.inj (hi.symm.trans hr')
    exact (htags _).mpr ⟨f, hf, x, hcell, hblank, hmissing, tag_eq_append x⟩

/-- A table that is read has a column for each feature. -/
theorem mem_header_of_rows (hrows : t.rows c = .ok rows) : ∀ f ∈ c.features, f ∈ t.header := by
  intro f hf
  obtain ⟨columns, hcolumns, -⟩ := rows_eq_ok_iff.mp hrows
  obtain ⟨-, -, -, -, hfeatures, -⟩ := rowColumns_spec hcolumns
  have hindex : t.columnIndex? f ∈ columns.features.map some := by
    rw [← map_columnIndex?_of_mapM hfeatures]
    exact List.mem_map_of_mem hf
  obtain ⟨i, -, hi⟩ := List.mem_map.mp hindex
  exact isSome_lastIndexOf?.mp (Option.isSome_of_eq_some hi.symm)

end Table

namespace Inventory

variable {c : Config} {t : Table} {f x : String}

/-- **Values by cells.**  The values of a feature are its cells that are not blank, with the
epsilon for the word for a missing tag. -/
theorem mem_valuesUnder :
    x ∈ valuesUnder c t f ↔ ∃ r ∈ t.records, ∃ s, t.cellUnder? r f = some s ∧ s ≠ "" ∧
      (if s = c.missingTag then epsilon else s) = x := by
  rw [valuesUnder, Table.columnCells, Table.columnIndex]
  cases hindex : t.columnIndex? f with
  | none => simp [Table.cellUnder?, hindex, Except.map, Except.toOption, valuesOf]
  | some i =>
      simp only [Table.cellUnder?, hindex, Except.map, Except.toOption, valuesOf, Option.getD_some,
        Option.map_some, Option.some.injEq, List.mem_map, List.mem_filter, decide_eq_true_iff]
      constructor
      · rintro ⟨s, ⟨⟨-, ⟨r, hr, rfl⟩, rfl⟩, hblank⟩, rfl⟩
        exact ⟨r, hr, _, rfl, hblank, rfl⟩
      · rintro ⟨r, hr, s, rfl, hblank, rfl⟩
        exact ⟨_, ⟨⟨_, ⟨r, hr, rfl⟩, rfl⟩, hblank⟩, rfl⟩

/-- What a feature tells of a table: the epsilon where the word for a missing tag stands, and
the texts that give tags. -/
theorem mem_valuesUnder_iff (hf : f ∈ c.features) :
    x ∈ valuesUnder c t f ↔ (x = epsilon ∧ t.Misses c f) ∨ t.Gives c f x := by
  rw [mem_valuesUnder, Table.gives_iff hf, Table.Misses]
  constructor
  · rintro ⟨r, hr, s, hcell, hblank, hvalue⟩
    split at hvalue
    · rename_i hmissing
      exact Or.inl ⟨hvalue.symm, hmissing ▸ hblank, r, hr, hmissing ▸ hcell⟩
    · rename_i hmissing
      subst hvalue
      exact Or.inr ⟨hblank, hmissing, r, hr, hcell⟩
  · rintro (⟨rfl, hblank, r, hr, hcell⟩ | ⟨hblank, hmissing, r, hr, hcell⟩)
    · exact ⟨r, hr, c.missingTag, hcell, hblank, if_pos rfl⟩
    · exact ⟨r, hr, x, hcell, hblank, if_neg hmissing⟩

end Inventory

/-- What a table that fits leaves with an inventory. -/
theorem TableCall.mem_left_of_fits {k : TableCall} {f x : String} (hfits : k.Fits) :
    (f, x) ∈ k.left ↔ f ∈ k.config.features ∧
      ((x = epsilon ∧ k.table.Misses k.config f) ∨ k.table.Gives k.config f x) := by
  rw [left, Inventory.mem_left, takeWhile_of_fits hfits]
  exact and_congr_right fun hf => Inventory.mem_valuesUnder_iff hf

namespace Inventory

/-! ## Tables that fit -/

variable {c : Config} {preElement : String} {tags : List String}
  {tables : List (String × Table)} {f n x : String}

/-- The values of a table after tables that fit. -/
theorem holds_tables_of_fits (hfits : ∀ p ∈ tables, (TableCall.mk c p.1 p.2).Fits) :
    ((initial c preElement tags).applyAll
        (tables.map fun p => TableCall.mk c p.1 p.2)).tables.Holds n x ↔
      ∃ p ∈ tables, p.1 = n ∧ ∃ f ∈ c.features,
        (x = epsilon ∧ p.2.Misses c f) ∨ p.2.Gives c f x := by
  refine holds_tables_applyAll.trans ((or_iff_right ValueSets.not_holds_empty).trans ?_)
  simp only [List.mem_map, exists_exists_and_eq_and]
  refine exists_congr fun p => and_congr_right fun hp => ?_
  simp only [hfits p hp, true_and, Prod.exists, exists_eq_right, eq_comm (a := n),
    TableCall.mem_left_of_fits (hfits p hp)]

/-- The values of a feature after tables that fit. -/
theorem holds_features_of_fits (hfits : ∀ p ∈ tables, (TableCall.mk c p.1 p.2).Fits) :
    ((initial c preElement tags).applyAll
        (tables.map fun p => TableCall.mk c p.1 p.2)).features.Holds f x ↔
      f ∈ c.features ∧ ∃ p ∈ tables,
        (x = epsilon ∧ p.2.Misses c f) ∨ p.2.Gives c f x := by
  have hnone := not_holds_features_initial (x := x) c preElement tags f
  refine holds_features_applyAll.trans ((or_iff_right hnone).trans ?_)
  simp only [List.mem_map, exists_exists_and_eq_and]
  refine Iff.trans (exists_congr fun p => and_congr_right fun hp =>
    TableCall.mem_left_of_fits (hfits p hp)) ?_
  constructor
  · rintro ⟨p, hp, hf, hvalue⟩
    exact ⟨hf, p, hp, hvalue⟩
  · rintro ⟨hf, p, hp, hvalue⟩
    exact ⟨p, hp, hf, hvalue⟩

end Inventory

/-- **Inventory and rows see the same tags.**  Take tables that can be read by a configuration,
and the inventory to which they were added one after the other, under any names.  Each of
them is added without an error.  Each tag of a form that is read from one of them is a plus
sign and an escaped value that the inventory tells of this table and of a configured
feature.

The other way round, a value that the inventory tells of a table or of a feature is the
epsilon, for a cell with the word for a missing tag, or else the text of a cell under a
configured feature, and where a form is read from the record of this cell, the form has the
tag.  All such values are told, and no others. -/
theorem inventory_agrees_with_rows (c : Config) (preElement : String) (tags : List String)
    (tables : List (String × Table)) (hread : ∀ p ∈ tables, ∃ rows, p.2.rows c = .ok rows) :
    let calls := tables.map fun p => TableCall.mk c p.1 p.2
    let v := (Inventory.initial c preElement tags).applyAll calls
    (∀ k ∈ calls, ∀ v', (k.apply v').2 = .ok ()) ∧
      (∀ p ∈ tables, ∀ rows, p.2.rows c = .ok rows → ∀ row ∈ rows, ∀ form, row.form = .ok form →
        ∀ g ∈ form.tags, ∃ x, g = "+" ++ escape x ∧ v.tables.Holds p.1 x ∧
          ∃ f ∈ c.features, v.features.Holds f x) ∧
      (∀ name x, v.tables.Holds name x ↔ ∃ p ∈ tables, p.1 = name ∧ ∃ f ∈ c.features,
        (x = epsilon ∧ p.2.Misses c f) ∨ p.2.Gives c f x) ∧
      ∀ f x, v.features.Holds f x ↔ f ∈ c.features ∧ ∃ p ∈ tables,
        (x = epsilon ∧ p.2.Misses c f) ∨ p.2.Gives c f x := by
  intro calls v
  have hfits : ∀ p ∈ tables, (TableCall.mk c p.1 p.2).Fits := fun p hp =>
    (hread p hp).elim fun rows hrows => Table.mem_header_of_rows hrows
  have htables : ∀ n x, v.tables.Holds n x ↔ ∃ p ∈ tables, p.1 = n ∧ ∃ f ∈ c.features,
      (x = epsilon ∧ p.2.Misses c f) ∨ p.2.Gives c f x := fun n x =>
    Inventory.holds_tables_of_fits hfits
  have hfeatures : ∀ f x, v.features.Holds f x ↔ f ∈ c.features ∧ ∃ p ∈ tables,
      (x = epsilon ∧ p.2.Misses c f) ∨ p.2.Gives c f x := fun f x =>
    Inventory.holds_features_of_fits hfits
  refine ⟨fun k hk v' => ?_, ?_, htables, hfeatures⟩
  · obtain ⟨p, hp, rfl⟩ := List.mem_map.mp hk
    exact TableCall.apply_eq_ok_iff.mpr (hfits p hp)
  intro p hp rows hrows row hrow form hform g hg
  obtain ⟨i, hi⟩ := List.mem_iff_getElem?.mp hrow
  obtain ⟨r, hr, hmem⟩ := Table.mem_tags_of_row hrows hi hform
  obtain ⟨f, hf, x, hcell, hblank, hmissing, rfl⟩ := (hmem g).mp hg
  have hgives : p.2.Gives c f x := (Table.gives_iff hf).mpr
    ⟨hblank, hmissing, r, List.mem_of_getElem? hr, hcell⟩
  exact ⟨x, tag_eq_append x, (htables _ _).mpr ⟨p, hp, rfl, f, hf, Or.inr hgives⟩, f, hf,
    (hfeatures _ _).mpr ⟨hf, p, hp, Or.inr hgives⟩⟩

/-- Two tables of one name.  The first has the word for a missing tag and a zero that is no
such word, and the record of the second is too short to have a mode. -/
theorem inventory_agrees_with_rows_of_missing_tag :
    let c : Config := ⟨"VerbRoot", "", [], [], ["Order", "Mode"], "NONE", "NONE", [], none, none,
      none, none, "verbs.lexc", none, 3, .standard⟩
    let header := ["Paradigm", "Class", "Lemma", "Stem", "Form1Surface", "Form1Split", "Order",
      "Mode"]
    let missing : Csv.Record :=
      ⟨2, ["VTA", "1", "aaba'", "aaba'w", "aaba'waa", "<<aaba'w>>aa", "Ind", " NONE "]⟩
    let zero : Csv.Record :=
      ⟨3, ["VTA", "1", "aaba'", "aaba'w", "aaba'wag", "<<aaba'w>>ag", "0Cnj", "0"]⟩
    let short : Csv.Record :=
      ⟨2, ["VTA", "1", "waabam", "waabam", "waabamaa", "<<waabam>>aa", "Ind"]⟩
    let t : Table := ⟨"VTA.csv", header, [missing, zero]⟩
    let tables := [("VTA", t), ("VTA", ⟨"VTA.csv", header, [short]⟩)]
    let v := (Inventory.initial c "TensePreverbs" ["0"]).applyAll
      (tables.map fun p => TableCall.mk c p.1 p.2)
    (∀ p ∈ tables, ∃ rows, p.2.rows c = .ok rows) ∧ v.tables.Holds "VTA" "0Cnj" ∧
      v.features.Holds "Mode" "0" ∧ t.Misses c "Mode" ∧ t.Gives c "Mode" "0" ∧
      ¬v.features.Holds "Mode" "NONE" := by
  intro c header missing zero short t tables v
  have hread : ∀ p ∈ tables, ∃ rows, p.2.rows c = .ok rows := by
    intro p hp
    rcases List.mem_pair.mp hp with rfl | rfl
    · exact ⟨_, rfl⟩
    · exact ⟨_, rfl⟩
  obtain ⟨-, -, htables, hfeatures⟩ :=
    inventory_agrees_with_rows c "TensePreverbs" ["0"] tables hread
  have horder : "Order" ∈ c.features := List.mem_cons_self
  have hmode : "Mode" ∈ c.features := List.mem_cons_of_mem _ List.mem_cons_self
  have hcnj : t.Gives c "Order" "0Cnj" := (Table.gives_iff horder).mpr
    ⟨by decide, by decide, zero, List.mem_cons_of_mem _ List.mem_cons_self, by decide +kernel⟩
  have hzero : t.Gives c "Mode" "0" := (Table.gives_iff hmode).mpr
    ⟨by decide, by decide, zero, List.mem_cons_of_mem _ List.mem_cons_self, by decide +kernel⟩
  have hmisses : t.Misses c "Mode" := ⟨by decide, missing, List.mem_cons_self, by decide +kernel⟩
  refine ⟨hread, ?_, ?_, hmisses, hzero, ?_⟩
  · exact (htables _ _).mpr ⟨("VTA", t), List.mem_cons_self, rfl, "Order", horder, Or.inr hcnj⟩
  · exact (hfeatures _ _).mpr ⟨hmode, ("VTA", t), List.mem_cons_self, Or.inl ⟨rfl, hmisses⟩⟩
  · intro hholds
    obtain ⟨-, p, -, ⟨hepsilon, -⟩ | ⟨-, hmissing, -⟩⟩ := (hfeatures _ _).mp hholds
    · exact absurd hepsilon (by decide)
    · exact hmissing rfl

end Morphotactics
