import Morphotactics.Chain
import Morphotactics.Json.Reader

/-!
# Configurations

What is to be compiled for one part of speech: its tables, the columns that give tags, the words
that mark empty cells, the dictionary that adds more stems, and the files to write.
-/

namespace Morphotactics

/-- The configuration of one part of speech. -/
structure Config where
  /-- The name of the root sublexicon. -/
  rootName : String
  /-- The directory of the tables, below the source directory. -/
  tableDir : String
  /-- The tables of regular words, without file extension. -/
  regularTables : List String
  /-- The tables of irregular words, without file extension. -/
  irregularTables : List String
  /-- The columns that give tags, in the order of the analysis. -/
  features : List String
  /-- The cell that gives no tag. -/
  missingTag : String
  /-- The cell that stands for no form. -/
  missingForm : String
  /-- Symbols to be declared besides tags and flags. -/
  declared : List String
  /-- The part of speech, which names the place of preverbs and prenouns. -/
  pos : Option String
  /-- The sublexicon of preverbs or prenouns, defined elsewhere. -/
  prefixRoot : Option String
  /-- The dictionary that adds stems. -/
  dictionary : Option String
  /-- The map from the dictionary's parts of speech to inflectional classes. -/
  classMap : Option String
  /-- The file for the regular network. -/
  regularFile : String
  /-- The file for the irregular network, if it is wanted. -/
  irregularFile : Option String
  /-- The number of form columns that are looked for. -/
  maxForms : Nat
  /-- The values that tell the clause order. -/
  orderTags : OrderTags
deriving DecidableEq, Repr

/-- Why there is no configuration. -/
inductive ConfigError where
  /-- The file cannot be opened. -/
  | unreadable (path : String)
  /-- There is a directory, which can be opened but holds no text. -/
  | isADirectory
  /-- The text is not the JSON text of a configuration. -/
  | notAConfig (problem : Json.Problem)
  /-- A field that is needed holds nothing. -/
  | emptyField (field : String)
  /-- There are preverbs or prenouns but no part of speech to name their place. -/
  | prefixRootWithoutPos
deriving DecidableEq, Repr

/-- What is told about a configuration that cannot be used. -/
def ConfigError.message : ConfigError → String
  | unreadable path => "Failed to read configuration " ++ path
  | isADirectory | notAConfig _ => "Failed to parse configuration"
  | emptyField field => "Configuration field `" ++ field ++ "` must not be empty"
  | prefixRootWithoutPos =>
    "`prefix_root` is set but `pos` is missing; the pre-element slot needs both"

namespace Config

/-- The configuration itself, unless something in it is missing. -/
def validate (c : Config) : Except ConfigError Config :=
  if c.rootName.isEmpty then .error (.emptyField "root_lexicon")
  else if c.features.isEmpty then .error (.emptyField "morph_features")
  else if c.regularFile.isEmpty then .error (.emptyField "regular_lexc_file")
  else if c.prefixRoot.isSome && c.pos.isNone then .error .prefixRootWithoutPos
  else .ok c

/-- The place of preverbs and prenouns. -/
def slot (c : Config) : Option PreElementSlot := c.pos.map fun pos => ⟨pos, c.prefixRoot⟩

/-- How forms are laid out. -/
def layout (c : Config) (m : Mode) : Layout := ⟨m, c.slot, c.orderTags⟩

/-- The name of the root sublexicon of the regular or the irregular network. -/
def rootFor (c : Config) : Mode → String
  | .regular => c.rootName
  | .irregular => c.rootName ++ "Irregular"

/-- The tables of the regular or the irregular network. -/
def tablesFor (c : Config) : Mode → List String
  | .regular => c.regularTables
  | .irregular => c.irregularTables

/-- The file for the regular or the irregular network. -/
def fileFor (c : Config) : Mode → Option String
  | .regular => some c.regularFile
  | .irregular => c.irregularFile

/-- The path of a table. -/
def tablePath (c : Config) (sourceDir table : String) : String :=
  Path.join (Path.join sourceDir c.tableDir) (table ++ ".csv")

end Config

end Morphotactics
