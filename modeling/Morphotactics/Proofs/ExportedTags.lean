import Mathlib.Data.List.Nodup
import Morphotactics.Proofs.RejectedTables

/-!
# The exported inventory

The order of the slots, the tags of the pre-element, the values of features and the values
of tables are all exported under names, and these names come from different places: one is
fixed, one is given with the pre-element, and the others are those of features and of
tables.  Nothing keeps them apart.  What is listed later under a name takes the place of
what was listed before, so a table hides a feature of its name, and either hides the
pre-element and the order of the slots.

`Inventory.mem_exported_iff` says what is exported under each name, and
`export_keeps_all_iff` when nothing is lost.
-/

namespace Morphotactics

/-! ## Lists of pairs -/

section Lookup

variable {α : Type} {l : List (String × α)} {n : String}

/-- A name is looked up when it is among the names of a list. -/
theorem isSome_lookup_iff : (l.lookup n).isSome ↔ n ∈ l.map Prod.fst := by
  simp [Option.isSome_iff_ne_none, List.lookup_eq_none_iff]

/-- Where names come up once, they may be looked up from either end. -/
theorem lookup_reverse (h : (l.map Prod.fst).Nodup) (n : String) :
    l.reverse.lookup n = l.lookup n := by
  induction l with
  | nil => rfl
  | cons p rest ih =>
      obtain ⟨m, a⟩ := p
      obtain ⟨hm, hrest⟩ := List.nodup_cons.mp h
      rw [List.reverse_cons, List.lookup_append, ih hrest]
      by_cases hn : n = m
      · subst hn
        have hnone : rest.lookup n = none :=
          Option.not_isSome_iff_eq_none.mp (isSome_lookup_iff.not.mpr hm)
        simp [hnone]
      · simp [List.lookup_cons, beq_eq_false_iff_ne.mpr hn]

end Lookup

/-- A sorted map is looked up from either end of its list, with the values mapped. -/
theorem SortedMap.lookup_reverse_map {α β : Type} (m : SortedMap String α) (f : α → β)
    (n : String) : (m.toList.map fun p => (p.1, f p.2)).reverse.lookup n = (m.get? n).map f := by
  have hnodup : (m.toList.map Prod.fst).Nodup := List.pairwise_map.mpr (m.ascending.imp ne_of_lt)
  have hlookup : ∀ l : List (String × α),
      (l.map fun p => (p.1, f p.2)).lookup n = (l.lookup n).map f := by
    intro l
    induction l with
    | nil => rfl
    | cons p rest ih =>
        rw [List.map_cons, lookup_cons, lookup_cons, ih]
        split <;> rfl
  rw [lookup_reverse (by rwa [List.map_map]), hlookup, get?]

namespace Inventory

variable {v : Inventory} {c : Config} {t : Table} {k : TableCall} {calls : List TableCall}
  {f n name : String} {sets : ValueSets} {values : List String}

/-! ## Names -/

/-- Features come up with their first value. -/
theorem contains_addFeature :
    (addFeature c t sets f).contains n = true ↔
      sets.contains n = true ∨ n = f ∧ ∃ x, x ∈ valuesUnder c t f := by
  unfold addFeature
  split
  · rename_i hempty
    simp [List.isEmpty_iff.mp hempty]
  · rename_i hvalues
    have hvalue : ∃ x, x ∈ valuesUnder c t f :=
      List.exists_mem_of_ne_nil _ fun hnil => hvalues (List.isEmpty_iff.mpr hnil)
    rw [ValueSets.add, SortedMap.contains_update, and_iff_left hvalue]

/-- Several features come up with their first values. -/
theorem contains_foldl_addFeature {fs : List String} :
    (fs.foldl (addFeature c t) sets).contains n = true ↔
      sets.contains n = true ∨ n ∈ fs ∧ ∃ x, x ∈ valuesUnder c t n := by
  rw [foldl_iff_of_step_iff (addFeature c t) (SortedMap.contains · n = true)
    fun _ _ => contains_addFeature]
  refine or_congr_right ?_
  constructor
  · rintro ⟨f, hf, rfl, hvalue⟩
    exact ⟨hf, hvalue⟩
  · rintro ⟨hn, hvalue⟩
    exact ⟨n, hn, rfl, hvalue⟩

/-- The features after a call: those that it leaves a value with come up. -/
theorem isSome_feature?_apply :
    ((k.apply v).1.feature? n).isSome ↔ (v.feature? n).isSome ∨ ∃ x, (n, x) ∈ k.left := by
  refine Iff.trans (b := (k.apply v).1.features.contains n = true) Iff.rfl ?_
  rw [TableCall.features_apply, TableCall.featuresAfter, contains_foldl_addFeature]
  simp only [TableCall.left, mem_left, exists_and_left]
  exact Iff.rfl

/-- The tables after a call: the table comes up if it fits, with or without values. -/
theorem isSome_table?_apply :
    ((k.apply v).1.table? n).isSome ↔ (v.table? n).isSome ∨ k.Fits ∧ n = k.name := by
  refine Iff.trans (b := (k.apply v).1.tables.contains n = true) Iff.rfl ?_
  rw [TableCall.tables_apply]
  by_cases hfits : k.Fits
  · rw [if_pos hfits, ValueSets.add, SortedMap.contains_update, iff_true_intro hfits, true_and]
    exact Iff.rfl
  · simp [hfits, table?, SortedMap.contains]

/-- The features that are configured come up without values. -/
theorem isSome_feature?_initial (c : Config) (preElement : String) (tags : List String) :
    ((initial c preElement tags).feature? n).isSome ↔ n ∈ c.features := by
  have hfold := foldl_iff_of_step_iff (fun (sets : ValueSets) f => sets.add [] f)
    (SortedMap.contains · n = true) (fun _ _ => SortedMap.contains_update)
    (b := SortedMap.empty) (l := c.features)
  refine hfold.trans ?_
  rw [exists_eq_right']
  exact or_iff_right Bool.false_ne_true

/-- The features that are known after calls. -/
theorem isSome_feature?_applyAll :
    ((v.applyAll calls).feature? n).isSome ↔
      (v.feature? n).isSome ∨ ∃ k ∈ calls, ∃ x, (n, x) ∈ k.left :=
  foldl_iff_of_step_iff (fun v (k : TableCall) => (k.apply v).1) (fun v => (v.feature? n).isSome)
    fun _ _ => isSome_feature?_apply

/-- The tables that are known after calls. -/
theorem isSome_table?_applyAll :
    ((v.applyAll calls).table? n).isSome ↔
      (v.table? n).isSome ∨ ∃ k ∈ calls, k.Fits ∧ n = k.name :=
  foldl_iff_of_step_iff (fun v (k : TableCall) => (k.apply v).1) (fun v => (v.table? n).isSome)
    fun _ _ => isSome_table?_apply

/-- No call changes the slots or the pre-element. -/
theorem slots_applyAll (v : Inventory) (calls : List TableCall) :
    (v.applyAll calls).accessOrder = v.accessOrder ∧
      (v.applyAll calls).preElement = v.preElement := by
  refine List.foldlRecOn (motive := fun w : Inventory => w.accessOrder = v.accessOrder ∧
    w.preElement = v.preElement) calls _ ⟨rfl, rfl⟩ ?_
  intro w hw k _
  by_cases hfits : k.Fits
  · rw [TableCall.apply_of_fits hfits]
    exact hw
  · obtain ⟨f, -, hcall⟩ := TableCall.apply_of_not_fits hfits w
    rw [hcall]
    exact hw

/-! ## The export -/

/-- An inventory tells values under a name: the order of the slots, the tags of the
pre-element, or the values of a feature or of a table. -/
inductive Tells (v : Inventory) : String → List String → Prop
  | accessOrder : Tells v "access_order" v.accessOrder
  | preElement {name : String} {tags : List String} (h : v.preElement = some (name, tags)) :
      Tells v name tags
  | feature {f : String} {s : SortedSet String} (h : v.feature? f = some s) : Tells v f s.toList
  | table {n : String} {s : SortedSet String} (h : v.table? n = some s) : Tells v n s.toList

/-- What is shown under a name: the values of the table of this name, or else those of the
feature, or else the tags of the pre-element, or else the order of the slots. -/
def shown? (v : Inventory) (name : String) : Option (List String) :=
  ((v.table? name).map SortedSet.toList).or <| ((v.feature? name).map SortedSet.toList).or <|
    (v.preElement.toList.lookup name).or <|
      if name = "access_order" then some v.accessOrder else none

/-- The pre-element is looked up under its name. -/
theorem lookup_preElement : v.preElement.toList.lookup name = some values ↔
    v.preElement = some (name, values) := by
  cases hpre : v.preElement with
  | none => simp
  | some p =>
      rw [Option.toList_some, lookup_cons, List.lookup_nil, Option.some.injEq, Prod.ext_iff]
      by_cases hname : name = p.1
      · simp [hname]
      · simp [hname, Ne.symm hname]

/-- What is shown under a name is told under it. -/
theorem Tells.of_shown (h : v.shown? name = some values) : v.Tells name values := by
  rw [shown?, Option.or_eq_some_iff, Option.or_eq_some_iff, Option.or_eq_some_iff,
    Option.map_eq_some_iff, Option.map_eq_some_iff] at h
  obtain ⟨s, hs, rfl⟩ | ⟨-, ⟨s, hs, rfl⟩ | ⟨-, hpre | ⟨-, horder⟩⟩⟩ := h
  · exact .table hs
  · exact .feature hs
  · exact .preElement (lookup_preElement.mp hpre)
  · split at horder
    · rename_i hname
      cases horder
      exact hname ▸ .accessOrder
    · cases horder

/-- A name under which anything is told shows something, maybe something else. -/
theorem Tells.exists_shown (h : v.Tells name values) : ∃ b, v.shown? name = some b := by
  rw [← Option.isSome_iff_exists, shown?]
  cases h with
  | accessOrder => simp
  | preElement hpre => simp [lookup_preElement.mpr hpre]
  | feature hs => simp [hs]
  | table hs => simp [hs]

/-- The export has what is listed last under a name. -/
theorem mem_exported :
    (name, values) ∈ v.exported ↔ v.members.reverse.lookup name = some values := by
  simp only [exported, List.mem_map, Prod.mk.injEq, SortedSet.mem_toList, SortedSet.mem_ofList]
  constructor
  · rintro ⟨n, hn, rfl, rfl⟩
    have hsome : (v.members.reverse.lookup n).isSome := by
      rw [isSome_lookup_iff, List.map_reverse, List.mem_reverse]
      exact List.mem_map.mpr hn
    obtain ⟨last, hlast⟩ := Option.isSome_iff_exists.mp hsome
    rw [lastUnder, hlast]
    rfl
  · intro hlast
    have hname : name ∈ v.members.map Prod.fst := by
      rw [← List.mem_reverse, ← List.map_reverse, ← isSome_lookup_iff, hlast]
      rfl
    refine ⟨name, List.mem_map.mp hname, rfl, ?_⟩
    rw [lastUnder, hlast]
    rfl

/-- **What is exported under a name.**  It is what is shown under it, and nothing else. -/
theorem mem_exported_iff : (name, values) ∈ v.exported ↔ v.shown? name = some values := by
  have hpre : v.preElement.toList.reverse = v.preElement.toList := by cases v.preElement <;> rfl
  rw [mem_exported, members, List.reverse_append, List.map_append, List.reverse_append,
    List.lookup_append, List.lookup_append, SortedMap.lookup_reverse_map,
    SortedMap.lookup_reverse_map, List.reverse_append, List.lookup_append, hpre,
    List.reverse_singleton, lookup_cons, List.lookup_nil, Option.or_assoc]
  rfl

/-- An inventory that knows nothing exports an order without slots, and no pre-element. -/
example : empty.exported = [("access_order", [])] := by decide +kernel

/-- Nothing is lost exactly where no name tells two things. -/
theorem keeps_all_iff :
    (∀ name values, v.Tells name values → (name, values) ∈ v.exported) ↔
      ∀ name a b, v.Tells name a → v.Tells name b → a = b := by
  simp only [mem_exported_iff]
  constructor
  · intro hkept name a b ha hb
    exact Option.some.inj ((hkept name a ha).symm.trans (hkept name b hb))
  · intro hone name values hvalues
    obtain ⟨b, hb⟩ := hvalues.exists_shown
    rw [hb, hone name values b hvalues (Tells.of_shown hb)]

end Inventory

/-- **When an export loses nothing.**  Take an inventory that came about by any calls, under
any names and with errors or without.  It knows the slots, the tags of the pre-element, all
configured features, and all tables that were added, with the values that the calls left.

Under each name the export shows one of these, and the values of a table come before those
of a feature, these before the tags of the pre-element, and the order of the slots comes
last.  So the export shows all that the inventory tells exactly when all that it tells under
one name is the same. -/
theorem export_keeps_all_iff (c : Config) (preElement : String) (tags : List String)
    (calls : List TableCall) :
    let v := (Inventory.initial c preElement tags).applyAll calls
    (v.accessOrder = [preElement, "Stem"] ++ c.features ∧
        v.preElement = some (preElement, tags)) ∧
      (∀ f, (v.feature? f).isSome ↔ f ∈ c.features ∨ ∃ k ∈ calls, ∃ x, (f, x) ∈ k.left) ∧
      (∀ f x, v.features.Holds f x ↔ ∃ k ∈ calls, (f, x) ∈ k.left) ∧
      (∀ n, (v.table? n).isSome ↔ ∃ k ∈ calls, k.Fits ∧ n = k.name) ∧
      (∀ n x, v.tables.Holds n x ↔ ∃ k ∈ calls, k.Fits ∧ n = k.name ∧ ∃ p ∈ k.left, p.2 = x) ∧
      (∀ name values, (name, values) ∈ v.exported ↔ v.shown? name = some values) ∧
      ((∀ name values, v.Tells name values → (name, values) ∈ v.exported) ↔
        ∀ name a b, v.Tells name a → v.Tells name b → a = b) := by
  intro v
  refine ⟨Inventory.slots_applyAll _ calls, fun f => ?_, fun f x => ?_, fun n => ?_, fun n x => ?_,
    fun name values => Inventory.mem_exported_iff, Inventory.keeps_all_iff⟩
  · rw [← Inventory.isSome_feature?_initial c preElement tags]
    exact Inventory.isSome_feature?_applyAll
  · refine Inventory.holds_features_applyAll.trans (or_iff_right ?_)
    exact Inventory.not_holds_features_initial c preElement tags f
  · exact Inventory.isSome_table?_applyAll.trans (or_iff_right Bool.false_ne_true)
  · exact Inventory.holds_tables_applyAll.trans (or_iff_right ValueSets.not_holds_empty)

/-- A table has the name of a feature.  It is added, and the export shows the values of the
table in place of those of the feature. -/
theorem table_hides_feature :
    let c : Config := ⟨"VerbRoot", "", [], [], ["Order", "Mode"], "NONE", "NONE", [], none, none,
      none, none, "verbs.lexc", none, 3, .standard⟩
    let t : Table := ⟨"Mode", ["Paradigm", "Class", "Lemma", "Stem", "Order", "Mode"],
      [⟨2, ["VTA", "VTA_C", "a", "a", "Ind", "Dub"]⟩]⟩
    let k : TableCall := ⟨c, "Mode", t⟩
    let v := (Inventory.initial c "TensePreverbs" ["0"]).applyAll [k]
    (k.apply (Inventory.initial c "TensePreverbs" ["0"])).2 = .ok () ∧
      v.feature? "Mode" = some (SortedSet.ofList ["Dub"]) ∧
      v.table? "Mode" = some (SortedSet.ofList ["Ind", "Dub"]) ∧
      ("Mode", ["Dub", "Ind"]) ∈ v.exported ∧
      ¬∀ name values, v.Tells name values → (name, values) ∈ v.exported := by
  intro c t k v
  have hfeature : v.feature? "Mode" = some (SortedSet.ofList ["Dub"]) := by decide +kernel
  have hlost : ("Mode", (SortedSet.ofList ["Dub"]).toList) ∉ v.exported := by decide +kernel
  refine ⟨by decide +kernel, hfeature, by decide +kernel, by decide +kernel, fun hkept => ?_⟩
  exact hlost (hkept "Mode" _ (.feature hfeature))

end Morphotactics
