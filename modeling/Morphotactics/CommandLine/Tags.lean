import Morphotactics.CommandLine.Outcome
import Morphotactics.Config.Reader
import Morphotactics.Inventory.Collection
import Morphotactics.Json.Printer

/-!
# Exporting tags

The command that writes the tag inventory of a configuration as JSON.
-/

namespace Morphotactics.CommandLine.Tags

/-- What an export is asked for. -/
structure Options where
  config : String
  sourceDir : String
  preElement : String
  preElementTags : List String
  output : String
deriving DecidableEq, Repr

/-- The switches of the command. -/
def switches : List Switch :=
  [⟨"config-file", none, .one, true⟩, ⟨"source-path", none, .one, true⟩,
    ⟨"pre-element", none, .one, true⟩, ⟨"pre-element-tags", none, .many, false⟩,
    ⟨"output-file", none, .one, true⟩]

/-- Reads the arguments of the command. -/
def Options.parse (args : List String) : Except Usage Options := do
  let uses ← CommandLine.parse switches args
  let one := fun name => (valuesOf uses name).head?.getD ""
  return {
    config := one "config-file"
    sourceDir := one "source-path"
    preElement := one "pre-element"
    preElementTags := valuesOf uses "pre-element-tags"
    output := one "output-file" }

/-- What lies behind a table that cannot be read.  Its records may have any cells, so long as all of
them are text. -/
def faultCause : Csv.Fault → Option String
  | .unreadable e => some e.message
  | .notText place cell valid =>
    some ("CSV parse error: record " ++ toString place.record ++ " (line " ++ toString place.line ++
      ", field: " ++ toString cell ++ ", byte: " ++ toString place.byte ++
      "): invalid utf-8: invalid UTF-8 in field " ++ toString cell ++ " near byte index " ++
      toString valid)
  | .unequalLengths _ | .unfit _ => none

/-- What lies behind a table that cannot be used. -/
def tableCause : TableError → Option String
  | .unreadable _ fault => faultCause fault
  | .missingColumn _ _ => none

/-- The text of an export. -/
def exportText (v : Inventory) : String := Json.textLists v.exported ++ "\n"

/-- Writes the export. -/
def run (o : Options) (disk : Disk) : Outcome :=
  let opening := [Notice.openingConfig o.config]
  match Config.load disk o.config with
  | .error e =>
    ⟨.failed ⟨"Invalid configuration " ++ o.config, some e.message⟩, opening, disk⟩
  | .ok c =>
    let (notices, result) := Inventory.collect disk c o.sourceDir o.preElement o.preElementTags
    let notices := opening ++ notices
    match result with
    | .error e => ⟨.failed ⟨e.message, tableCause e⟩, notices, disk⟩
    | .ok v =>
      let notices := notices ++ [.writingFile o.output]
      match disk.write o.output (Bytes.ofText (exportText v)) with
      | .error e => ⟨.failed ⟨"Failed to create " ++ o.output, some e.message⟩, notices, disk⟩
      | .ok disk => ⟨.done, notices, disk⟩

/-- The paths that an export looks at, so far as the configuration is on the disk. -/
def Options.paths (o : Options) (disk : Disk) : List String :=
  [o.config, o.output] ++
    match Config.load disk o.config with
    | .error _ => []
    | .ok c => (c.regularTables ++ c.irregularTables).map (c.tablePath o.sourceDir)

/-- The paths that the command looks at, so far as the disk tells them. -/
def paths (args : List String) (disk : Disk) : List String :=
  match Options.parse args with
  | .error _ => []
  | .ok o => o.paths disk

/-- Runs the command. -/
def command (args : List String) (disk : Disk) : Outcome :=
  match Options.parse args with
  | .error u => ⟨.usage u, [], disk⟩
  | .ok o => run o disk

end Morphotactics.CommandLine.Tags
