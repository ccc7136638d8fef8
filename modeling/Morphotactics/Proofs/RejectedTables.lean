import Mathlib.Data.List.TakeWhile
import Morphotactics.Inventory
import Morphotactics.Proofs.ColumnNames

/-!
# Rejected tables and the inventory

A table is added to an inventory feature by feature.  Where a feature has no column the
table is rejected, but the features before it have been added by then, and stay.  What is
told about the table itself comes last, so that nothing of it is there.

So the values of features and the values of tables can come apart.
`TableCall.holds_features_apply` and `TableCall.holds_tables_apply` say what one call does
to either, whether the table is rejected or not, and `Inventory.holds_features_applyAll` and
`Inventory.holds_tables_applyAll` what a run of calls comes to.
-/

namespace Morphotactics

namespace ValueSets

variable {sets : ValueSets} {values : List String} {name n x : String}

/-- Whether a value is told under a name. -/
def Holds (sets : ValueSets) (name x : String) : Prop :=
  ∃ s, sets.get? name = some s ∧ x ∈ s

/-- Whether a value is told under any name. -/
def Has (sets : ValueSets) (x : String) : Prop := ∃ name, sets.Holds name x

/-- Where nothing is told, no value is. -/
@[simp] theorem not_holds_empty : ¬Holds SortedMap.empty name x := by
  rintro ⟨s, hs, -⟩
  cases hs

/-- Adding values tells these under the name, besides all that was told. -/
theorem holds_add : (sets.add values name).Holds n x ↔ sets.Holds n x ∨ n = name ∧ x ∈ values := by
  rw [Holds, add, SortedMap.get?_update]
  by_cases hn : n = name
  · subst hn
    simp only [if_true, Option.some.injEq, exists_eq_left', SortedSet.mem_insertAll, true_and]
    refine or_congr_left ?_
    cases hlookup : sets.get? n with
    | none => simp [Holds, hlookup]
    | some s => simp [Holds, hlookup]
  · simp [hn, Holds]

/-- Adding what is told under a name already changes nothing. -/
theorem add_eq_self (hne : values ≠ []) (h : ∀ x ∈ values, sets.Holds name x) :
    sets.add values name = sets := by
  obtain ⟨x, hx⟩ := List.exists_mem_of_ne_nil _ hne
  obtain ⟨s, hs, -⟩ := h x hx
  have hset : s.insertAll values = s := by
    refine SortedSet.ext fun x => ?_
    rw [SortedSet.mem_insertAll]
    refine or_iff_left_of_imp fun hx => ?_
    obtain ⟨s', hs', hmem⟩ := h x hx
    rw [hs] at hs'
    exact Option.some.inj hs' ▸ hmem
  refine SortedMap.ext fun n => ?_
  rw [add, SortedMap.get?_update, hs, Option.getD_some, hset]
  split
  · rename_i hn
    rw [hn, hs]
  · rfl

end ValueSets

namespace Inventory

variable {v : Inventory} {c : Config} {t : Table} {f n x name : String}

/-! ## One call -/

/-- The values that a table has for a feature. -/
def valuesUnder (c : Config) (t : Table) (f : String) : List String :=
  valuesOf c ((t.columnCells f).toOption.getD [])

/-- What a table leaves with an inventory: the values of the configured features before the
first that has no column, each with its feature. -/
def left (c : Config) (t : Table) : List (String × String) :=
  (c.features.takeWhile (· ∈ t.header)).flatMap fun f => (valuesUnder c t f).map fun x => (f, x)

/-- A table leaves the values of the configured features before the first that has no
column. -/
theorem mem_left :
    (f, x) ∈ left c t ↔
      f ∈ c.features.takeWhile (· ∈ t.header) ∧ x ∈ valuesUnder c t f := by
  simp [left]

/-- The sets with more values of a feature.  A feature does not come up without a value. -/
def addFeature (c : Config) (t : Table) (sets : ValueSets) (f : String) : ValueSets :=
  if (valuesUnder c t f).isEmpty then sets else sets.add (valuesUnder c t f) f

/-- Adding a feature tells its values, besides all that was told. -/
theorem holds_addFeature {sets : ValueSets} :
    (addFeature c t sets f).Holds n x ↔ sets.Holds n x ∨ n = f ∧ x ∈ valuesUnder c t f := by
  unfold addFeature
  split
  · rename_i hempty
    simp [List.isEmpty_iff.mp hempty]
  · exact ValueSets.holds_add

/-- The values of several features. -/
theorem holds_foldl_addFeature {fs : List String} {sets : ValueSets} :
    (fs.foldl (addFeature c t) sets).Holds n x ↔
      sets.Holds n x ∨ n ∈ fs ∧ x ∈ valuesUnder c t n := by
  rw [foldl_iff_of_step_iff (addFeature c t) (ValueSets.Holds · n x) fun _ _ => holds_addFeature]
  refine or_congr_right ?_
  constructor
  · rintro ⟨f, hf, rfl, hx⟩
    exact ⟨hf, hx⟩
  · rintro ⟨hn, hx⟩
    exact ⟨n, hn, rfl, hx⟩

/-- Features of which no value is new change nothing. -/
theorem foldl_addFeature_eq_self {fs : List String} {sets : ValueSets}
    (h : ∀ f ∈ fs, ∀ x ∈ valuesUnder c t f, sets.Holds f x) :
    fs.foldl (addFeature c t) sets = sets := by
  induction fs with
  | nil => rfl
  | cons f fs ih =>
      have hsame : addFeature c t sets f = sets := by
        unfold addFeature
        split
        · rfl
        · rename_i hne
          exact ValueSets.add_eq_self (fun hnil => hne (List.isEmpty_iff.mpr hnil))
            (h f List.mem_cons_self)
      rw [List.foldl_cons, hsame, ih fun f' hf' => h f' (List.mem_cons_of_mem _ hf')]

/-- The cells of a column are given where the header has it, and otherwise it is told to be
missing. -/
theorem columnCells_eq (t : Table) (f : String) :
    (f ∈ t.header → t.columnCells f = .ok ((t.columnCells f).toOption.getD [])) ∧
      (f ∉ t.header → t.columnCells f = .error (.missingColumn t.name f)) := by
  rw [← Table.isSome_lastIndexOf?, Table.columnCells, Table.columnIndex, Table.columnIndex?]
  cases Table.lastIndexOf? f t.header <;> simp [Except.map, Except.toOption]

/-- **Feature by feature.**  Features are added up to the first that has no column, which is
then what is told to be missing. -/
theorem addFeatures_eq (c : Config) (t : Table) (fs : List String) (v : Inventory) :
    addFeatures c t fs v =
      ({ v with features := (fs.takeWhile (· ∈ t.header)).foldl (addFeature c t) v.features },
        match fs.find? (· ∉ t.header) with
        | none => .ok (fs.flatMap (valuesUnder c t))
        | some f => .error (.missingColumn t.name f)) := by
  -- the inventory changes on the way, but neither the values nor what is missing depend on it
  induction fs generalizing v with
  | nil => rfl
  | cons f fs ih =>
      rw [addFeatures]
      by_cases hf : f ∈ t.header
      · have hstep : (if (valuesUnder c t f).isEmpty then v
            else { v with features := v.features.add (valuesUnder c t f) f }) =
              { v with features := addFeature c t v.features f } := by
          unfold addFeature
          split <;> rfl
        have hcells : valuesOf c ((t.columnCells f).toOption.getD []) = valuesUnder c t f := rfl
        have hread : (f :: fs).takeWhile (· ∈ t.header) = f :: fs.takeWhile (· ∈ t.header) :=
          List.takeWhile_cons_of_pos (decide_eq_true hf)
        have hmissing : (f :: fs).find? (· ∉ t.header) = fs.find? (· ∉ t.header) :=
          List.find?_cons_of_neg (by simp [hf])
        rw [(columnCells_eq t f).1 hf, hread, hmissing]
        dsimp only
        rw [hcells, hstep, ih]
        cases fs.find? (· ∉ t.header) <;> rfl
      · rw [(columnCells_eq t f).2 hf]
        simp [hf]

end Inventory

/-- A call that adds a table to an inventory, under a name and by a configuration. -/
structure TableCall where
  config : Config
  name : String
  table : Table

namespace TableCall

variable {k : TableCall} {v : Inventory} {e : TableError} {n x : String}

/-- What a call makes of an inventory, and whether it is an error. -/
def apply (k : TableCall) (v : Inventory) : Inventory × Except TableError Unit :=
  v.addTable k.config k.name k.table

/-- What a call leaves with the features of an inventory. -/
def left (k : TableCall) : List (String × String) := Inventory.left k.config k.table

/-- All configured features have a column. -/
def Fits (k : TableCall) : Prop := ∀ f ∈ k.config.features, f ∈ k.table.header

instance (k : TableCall) : Decidable k.Fits :=
  inferInstanceAs (Decidable (∀ f ∈ k.config.features, f ∈ k.table.header))

/-- Of a table that fits, all configured features are added. -/
theorem takeWhile_of_fits (hfits : k.Fits) :
    k.config.features.takeWhile (· ∈ k.table.header) = k.config.features :=
  List.takeWhile_eq_self_iff.mpr fun f hf => decide_eq_true (hfits f hf)

/-- The values of features after a call. -/
def featuresAfter (k : TableCall) (v : Inventory) : ValueSets :=
  (k.config.features.takeWhile (· ∈ k.table.header)).foldl
    (Inventory.addFeature k.config k.table) v.features

/-- **A table that fits.**  Its values are told of the features, and of the table. -/
theorem apply_of_fits (hfits : k.Fits) (v : Inventory) :
    k.apply v = ({ v with
      features := k.featuresAfter v
      tables := v.tables.add (k.left.map Prod.snd) k.name }, .ok ()) := by
  have hmissing : k.config.features.find? (· ∉ k.table.header) = none :=
    List.find?_eq_none.mpr fun f hf => by simp [hfits f hf]
  have hvalues : k.left.map Prod.snd =
      k.config.features.flatMap (Inventory.valuesUnder k.config k.table) := by
    rw [left, Inventory.left, takeWhile_of_fits hfits, List.map_flatMap]
    simp [Function.comp_def]
  rw [apply, Inventory.addTable, Inventory.addFeatures_eq, hmissing, hvalues]
  rfl

/-- **A table that does not fit.**  Its values are told of the features before the first that
has no column, and nothing of the table itself. -/
theorem apply_of_not_fits (hfits : ¬k.Fits) (v : Inventory) :
    ∃ f, k.config.features.find? (· ∉ k.table.header) = some f ∧
      k.apply v =
        ({ v with features := k.featuresAfter v }, .error (.missingColumn k.table.name f)) := by
  cases hmissing : k.config.features.find? (· ∉ k.table.header) with
  | none => exact absurd (fun f hf => by simpa using List.find?_eq_none.mp hmissing f hf) hfits
  | some f =>
      refine ⟨f, rfl, ?_⟩
      rw [apply, Inventory.addTable, Inventory.addFeatures_eq, hmissing]
      rfl

/-- A call succeeds where all features have a column, in whichever inventory. -/
theorem apply_eq_ok_iff : (k.apply v).2 = .ok () ↔ k.Fits := by
  constructor
  · intro hok
    by_contra hfits
    obtain ⟨f, -, hcall⟩ := apply_of_not_fits hfits v
    rw [hcall] at hok
    cases hok
  · intro hfits
    rw [apply_of_fits hfits]

/-- The features after a call, whether it is an error or not. -/
theorem features_apply (k : TableCall) (v : Inventory) :
    (k.apply v).1.features = k.featuresAfter v := by
  by_cases hfits : k.Fits
  · rw [apply_of_fits hfits]
  · obtain ⟨f, -, hcall⟩ := apply_of_not_fits hfits v
    rw [hcall]

/-- The tables after a call: a table that does not fit leaves them as they were. -/
theorem tables_apply (k : TableCall) (v : Inventory) :
    (k.apply v).1.tables =
      if k.Fits then v.tables.add (k.left.map Prod.snd) k.name else v.tables := by
  split
  · rename_i hfits
    rw [apply_of_fits hfits]
  · rename_i hfits
    obtain ⟨f, -, hcall⟩ := apply_of_not_fits hfits v
    rw [hcall]

/-- What is told of features: a table adds what it leaves with them, even if it does not
fit. -/
theorem holds_features_apply :
    (k.apply v).1.features.Holds n x ↔ v.features.Holds n x ∨ (n, x) ∈ k.left := by
  rw [features_apply, featuresAfter, Inventory.holds_foldl_addFeature, left, Inventory.mem_left]

/-- What is told under the names of tables: all of a table that fits, and nothing of another
one. -/
theorem holds_tables_apply :
    (k.apply v).1.tables.Holds n x ↔
      v.tables.Holds n x ∨ k.Fits ∧ n = k.name ∧ ∃ p ∈ k.left, p.2 = x := by
  rw [tables_apply]
  by_cases hfits : k.Fits
  · rw [if_pos hfits, ValueSets.holds_add, List.mem_map, iff_true_intro hfits, true_and]
  · simp [hfits]

/-- A call leaves the features as they are exactly when it has no new value for any of
them. -/
theorem feature?_apply_eq_iff :
    (∀ f, (k.apply v).1.feature? f = v.feature? f) ↔
      ∀ p ∈ k.left, v.features.Holds p.1 p.2 := by
  constructor
  · rintro h ⟨f, x⟩ hp
    obtain ⟨s, hs, hx⟩ := holds_features_apply.mpr (Or.inr hp)
    exact ⟨s, (h f).symm.trans hs, hx⟩
  · intro h f
    have hsame : (k.apply v).1.features = v.features := by
      rw [features_apply, featuresAfter]
      exact Inventory.foldl_addFeature_eq_self fun f hf x hx =>
        h (f, x) (Inventory.mem_left.mpr ⟨hf, hx⟩)
    rw [Inventory.feature?, hsame, Inventory.feature?]

end TableCall

namespace Inventory

variable {v : Inventory} {calls : List TableCall} {n x : String}

/-! ## Runs of calls -/

/-- An inventory after calls, some of which may have been errors. -/
def applyAll (v : Inventory) (calls : List TableCall) : Inventory :=
  calls.foldl (fun v k => (k.apply v).1) v

/-- An inventory without values has none for any feature. -/
theorem not_holds_features_initial (c : Config) (preElement : String) (tags : List String)
    (f : String) : ¬(initial c preElement tags).features.Holds f x := by
  refine List.foldlRecOn (motive := fun sets => ¬ValueSets.Holds sets f x) c.features _
    ValueSets.not_holds_empty fun sets hnone n _ => ?_
  simpa [ValueSets.holds_add] using hnone

/-- **Values of a feature after calls**: what the calls leave with it, errors or not. -/
theorem holds_features_applyAll :
    (v.applyAll calls).features.Holds n x ↔
      v.features.Holds n x ∨ ∃ k ∈ calls, (n, x) ∈ k.left :=
  foldl_iff_of_step_iff (fun v (k : TableCall) => (k.apply v).1) (fun v => v.features.Holds n x)
    fun _ _ => TableCall.holds_features_apply

/-- **Values of a table after calls**: what the tables of its name that fit have left. -/
theorem holds_tables_applyAll :
    (v.applyAll calls).tables.Holds n x ↔
      v.tables.Holds n x ∨ ∃ k ∈ calls, k.Fits ∧ n = k.name ∧ ∃ p ∈ k.left, p.2 = x :=
  foldl_iff_of_step_iff (fun v (k : TableCall) => (k.apply v).1) (fun v => v.tables.Holds n x)
    fun _ _ => TableCall.holds_tables_apply

/-- What the calls leave with any feature. -/
theorem has_features_applyAll :
    (v.applyAll calls).features.Has x ↔
      v.features.Has x ∨ ∃ k ∈ calls, ∃ p ∈ k.left, p.2 = x := by
  simp only [ValueSets.Has, holds_features_applyAll, exists_or, Prod.exists, exists_eq_right]
  refine or_congr_right ?_
  constructor
  · rintro ⟨n, k, hk, hleft⟩
    exact ⟨k, hk, n, hleft⟩
  · rintro ⟨k, hk, n, hleft⟩
    exact ⟨n, k, hk, hleft⟩

/-- What the tables that fit have left, under any name. -/
theorem has_tables_applyAll :
    (v.applyAll calls).tables.Has x ↔
      v.tables.Has x ∨ ∃ k ∈ calls, k.Fits ∧ ∃ p ∈ k.left, p.2 = x := by
  simp only [ValueSets.Has, holds_tables_applyAll, exists_or]
  refine or_congr_right ?_
  constructor
  · rintro ⟨n, k, hk, hfits, -, hleft⟩
    exact ⟨k, hk, hfits, hleft⟩
  · rintro ⟨k, hk, hfits, hleft⟩
    exact ⟨k.name, k, hk, hfits, rfl, hleft⟩

end Inventory

/-- **What rejected tables leave.**  Take an inventory that came about by any calls, errors
among them.  A further call is an error exactly when a configured feature has no column, and
the error names the first one.  The values of all tables are then as they were.  The values of
features are as they were exactly when the table has no new value for any of the features
before that one.

So over all calls the values of features and the values of tables are the same ones exactly
when each value that a rejected table left is also a value of a table that was not
rejected. -/
theorem rejected_tables_iff (c : Config) (preElement : String) (tags : List String)
    (calls : List TableCall) :
    let v := (Inventory.initial c preElement tags).applyAll calls
    (∀ k : TableCall, (k.apply v).2 = .ok () ↔ k.Fits) ∧
      (∀ (k : TableCall) (e : TableError), (k.apply v).2 = .error e →
        (∃ f, k.config.features.find? (· ∉ k.table.header) = some f ∧
          e = .missingColumn k.table.name f) ∧
        (∀ n, (k.apply v).1.table? n = v.table? n) ∧
        ((∀ f, (k.apply v).1.feature? f = v.feature? f) ↔
          ∀ p ∈ k.left, v.features.Holds p.1 p.2)) ∧
      ((∀ x, v.features.Has x ↔ v.tables.Has x) ↔
        ∀ k ∈ calls, ¬k.Fits → ∀ p ∈ k.left,
          ∃ k' ∈ calls, k'.Fits ∧ ∃ p' ∈ k'.left, p'.2 = p.2) := by
  intro v
  have hrejected : ∀ (k : TableCall) (e : TableError), (k.apply v).2 = .error e → ¬k.Fits := by
    intro k e he hfits
    rw [TableCall.apply_eq_ok_iff.mpr hfits] at he
    cases he
  refine ⟨fun k => TableCall.apply_eq_ok_iff, fun k e he => ⟨?_, fun n => ?_,
    TableCall.feature?_apply_eq_iff⟩, ?_⟩
  · obtain ⟨f, hmissing, hcall⟩ := TableCall.apply_of_not_fits (hrejected k e he) v
    rw [hcall] at he
    exact ⟨f, hmissing, (Except.error.inj he).symm⟩
  · obtain ⟨f, -, hcall⟩ := TableCall.apply_of_not_fits (hrejected k e he) v
    rw [hcall, Inventory.table?, Inventory.table?]
  · have hfeatures : ∀ x, v.features.Has x ↔ ∃ k ∈ calls, ∃ p ∈ k.left, p.2 = x := by
      intro x
      refine Inventory.has_features_applyAll.trans (or_iff_right ?_)
      rintro ⟨f, hf⟩
      exact Inventory.not_holds_features_initial c preElement tags f hf
    have htables : ∀ x, v.tables.Has x ↔ ∃ k ∈ calls, k.Fits ∧ ∃ p ∈ k.left, p.2 = x := by
      intro x
      refine Inventory.has_tables_applyAll.trans (or_iff_right ?_)
      rintro ⟨n, hn⟩
      exact ValueSets.not_holds_empty hn
    simp only [hfeatures, htables]
    -- the values of tables are among those of features, so only one direction can fail
    constructor
    · intro h k hk _ p hp
      exact (h p.2).mp ⟨k, hk, p, hp, rfl⟩
    · intro h x
      constructor
      · rintro ⟨k, hk, p, hp, rfl⟩
        by_cases hfits : k.Fits
        · exact ⟨k, hk, hfits, p, hp, rfl⟩
        · exact h k hk hfits p hp
      · rintro ⟨k, hk, -, p, hp, hx⟩
        exact ⟨k, hk, p, hp, hx⟩

/-- A table without a column for its second feature comes after one that has both, and its
value of the first feature is known already. -/
theorem rejected_tables_iff_of_known_value :
    let c : Config := ⟨"VerbRoot", "", [], [], ["Order", "Mode"], "NONE", "NONE", [], none, none,
      none, none, "verbs.lexc", none, 3, .standard⟩
    let first : TableCall := ⟨c, "VTA", ⟨"VTA", ["Order", "Mode"], [⟨2, ["Ind", "Dub"]⟩]⟩⟩
    let k : TableCall := ⟨c, "VAI", ⟨"VAI", ["Order"], [⟨2, [" Ind"]⟩]⟩⟩
    let v := (Inventory.initial c "TensePreverbs" ["0"]).applyAll [first]
    let v' := (Inventory.initial c "TensePreverbs" ["0"]).applyAll [first, k]
    (k.apply v).2 = .error (.missingColumn "VAI" "Mode") ∧
      (∀ f, (k.apply v).1.feature? f = v.feature? f) ∧
      ∀ x, v'.features.Has x ↔ v'.tables.Has x := by
  intro c first k v v'
  have hrejected : (k.apply v).2 = .error (.missingColumn "VAI" "Mode") := by decide +kernel
  have hleft : k.left = [("Order", "Ind")] := by decide +kernel
  have hknown : v.features.Holds "Order" "Ind" :=
    ⟨SortedSet.ofList ["Ind"], by decide +kernel, by decide +kernel⟩
  have hfirst : first.Fits := by decide +kernel
  have hvalue : ("Order", "Ind") ∈ first.left := by decide +kernel
  have hone := (rejected_tables_iff c "TensePreverbs" ["0"] [first]).2.1 k _ hrejected
  have hall := (rejected_tables_iff c "TensePreverbs" ["0"] [first, k]).2.2
  refine ⟨hrejected, hone.2.2.mpr fun p hp => ?_, hall.mpr fun k' hk' hrejected' p hp => ?_⟩
  · rw [hleft] at hp
    rw [List.mem_singleton.mp hp]
    exact hknown
  · refine ⟨first, List.mem_cons_self, hfirst, ("Order", "Ind"), hvalue, ?_⟩
    rcases List.mem_cons.mp hk' with rfl | hk'
    · exact absurd hfirst hrejected'
    · rw [List.mem_singleton.mp hk', hleft] at hp
      rw [List.mem_singleton.mp hp]

/-- The first of two features has a column and the second has none.  The table is rejected,
but its value of the first feature stays. -/
theorem rejected_table_leaves_value :
    let c : Config := ⟨"VerbRoot", "", [], [], ["Order", "Mode"], "NONE", "NONE", [], none, none,
      none, none, "verbs.lexc", none, 3, .standard⟩
    let t : Table := ⟨"VTA", ["Paradigm", "Class", "Lemma", "Stem", "Order"],
      [⟨2, ["VTA", "VTA_C", "a", "a", "Ind"]⟩]⟩
    let k : TableCall := ⟨c, "VTA", t⟩
    let v := Inventory.initial c "TensePreverbs" ["0"]
    (k.apply v).2 = .error (.missingColumn "VTA" "Mode") ∧
      v.feature? "Order" = some SortedSet.empty ∧
      (k.apply v).1.feature? "Order" = some (SortedSet.ofList ["Ind"]) ∧
      (k.apply v).1.features.Has "Ind" ∧ ¬(k.apply v).1.tables.Has "Ind" := by
  intro c t k v
  have hlookup : (k.apply v).1.feature? "Order" = some (SortedSet.ofList ["Ind"]) := by
    decide +kernel
  have htables : (k.apply v).1.tables = SortedMap.empty := by decide +kernel
  refine ⟨by decide +kernel, by decide +kernel, hlookup, ⟨"Order", _, hlookup, ?_⟩, ?_⟩
  · decide +kernel
  · rw [htables]
    rintro ⟨n, hn⟩
    exact ValueSets.not_holds_empty hn

end Morphotactics
