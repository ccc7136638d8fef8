import Morphotactics.Inventory
import Morphotactics.Notice

/-!
# Collecting tags

The inventory of all tables of a configuration, regular and irregular ones.
-/

namespace Morphotactics.Inventory

/-- Adds the tables of a configuration, up to the first that cannot be used, and tells which are
read. -/
def addTables (disk : Disk) (c : Config) (sourceDir : String) :
    Inventory → List String → List Notice × Except TableError Inventory
  | v, [] => ([], .ok v)
  | v, name :: names =>
    let path := c.tablePath sourceDir name
    match Table.load disk path with
    | .error e => ([.readingTags path], .error e)
    | .ok t =>
      match v.addTable c name t with
      | (_, .error e) => ([.readingTags path], .error e)
      | (v, .ok ()) =>
        let (notices, result) := addTables disk c sourceDir v names
        (.readingTags path :: notices, result)

/-- The inventory of all tables of a configuration. -/
def collect (disk : Disk) (c : Config) (sourceDir preElement : String) (tags : List String) :
    List Notice × Except TableError Inventory :=
  addTables disk c sourceDir (initial c preElement tags) (c.regularTables ++ c.irregularTables)

end Morphotactics.Inventory
