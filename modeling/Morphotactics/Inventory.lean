import Morphotactics.SortedMap
import Morphotactics.SortedSet
import Morphotactics.Table

/-!
# Tag inventories

Which values the feature columns of tables hold, gathered by feature and by table.  The word for a
missing tag counts as the epsilon.  `Inventory.members` lists all that an inventory tells under the
names by which it is exported, and `Inventory.exported` is the export: a name tells what was last
listed under it.
-/

namespace Morphotactics

/-- Sets of values by name. -/
abbrev ValueSets := SortedMap String (SortedSet String)

/-- The sets with more values under a name. -/
def ValueSets.add (values : List String) (name : String) (sets : ValueSets) : ValueSets :=
  sets.update name fun s => (s.getD SortedSet.empty).insertAll values

/-- The values that tables use. -/
structure Inventory where
  /-- The slots of a word in their order. -/
  accessOrder : List String
  /-- The name of the pre-element slot and its tags, if there is one. -/
  preElement : Option (String × List String)
  /-- The values of each feature. -/
  features : ValueSets
  /-- The values in each table. -/
  tables : ValueSets
deriving DecidableEq

namespace Inventory

/-- The inventory that knows no slots either. -/
def empty : Inventory := ⟨[], none, SortedMap.empty, SortedMap.empty⟩

/-- The inventory without values.  The pre-element comes first, then the stem, then the configured
features. -/
def initial (c : Config) (preElement : String) (tags : List String) : Inventory where
  accessOrder := [preElement, "Stem"] ++ c.features
  preElement := some (preElement, tags)
  features := c.features.foldl (fun s f => s.add [] f) SortedMap.empty
  tables := SortedMap.empty

/-- The values of a feature, if the inventory knows it. -/
def feature? (v : Inventory) (f : String) : Option (SortedSet String) := v.features.get? f

/-- The values in a table, if the inventory knows it. -/
def table? (v : Inventory) (t : String) : Option (SortedSet String) := v.tables.get? t

/-- The values that cells tell. -/
def valuesOf (c : Config) (cells : List String) : List String :=
  ((cells.map Text.trim).filter (· ≠ "")).map fun s => if s = c.missingTag then epsilon else s

/-- Adds the values of features of a table, up to the first that has no column.  The values of all
of them are given back. -/
def addFeatures (c : Config) (t : Table) :
    List String → Inventory → Inventory × Except TableError (List String)
  | [], v => (v, .ok [])
  | f :: fs, v =>
    match t.columnCells f with
    | .error e => (v, .error e)
    | .ok cells =>
      let values := valuesOf c cells
      let v := if values.isEmpty then v else { v with features := v.features.add values f }
      match addFeatures c t fs v with
      | (v, .ok more) => (v, .ok (values ++ more))
      | (v, .error e) => (v, .error e)

/-- Adds the values of a table.  Where a column is missing, the features before it have been added
but the table has not. -/
def addTable (v : Inventory) (c : Config) (name : String) (t : Table) :
    Inventory × Except TableError Unit :=
  match addFeatures c t c.features v with
  | (v, .ok values) => ({ v with tables := v.tables.add values name }, .ok ())
  | (v, .error e) => (v, .error e)

/-- What the inventory tells, under the names by which it is exported, in the order in which it is
listed. -/
def members (v : Inventory) : List (String × List String) :=
  [("access_order", v.accessOrder)] ++ v.preElement.toList ++
    (v.features.toList ++ v.tables.toList).map fun s => (s.1, s.2.toList)

/-- What is listed last under a name. -/
def lastUnder (name : String) (members : List (String × List String)) : List String :=
  (members.reverse.lookup name).getD []

/-- The export of an inventory, in the order of the names. -/
def exported (v : Inventory) : List (String × List String) :=
  (SortedSet.ofList (v.members.map Prod.fst)).toList.map fun name =>
    (name, lastUnder name v.members)

end Inventory

end Morphotactics
