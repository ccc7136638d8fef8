import Morphotactics.CommandLine.Outcome
import Morphotactics.Compilation
import Morphotactics.Config.Reader
import Morphotactics.LexcSource

/-!
# Building lexc source

The command that compiles the networks of several configurations with one alphabet and writes their
sources, and after them the root source, into one directory.
-/

namespace Morphotactics.CommandLine.Build

/-- What a build is asked for. -/
structure Options where
  configs : List String
  sourceDir : String
  outputDir : String
  dictionaryDirs : List String
  /-- Whether words from dictionaries are wanted. -/
  dictionaries : Bool
  /-- Whether more than warnings and general information is wanted. -/
  verbose : Bool
deriving DecidableEq, Repr

/-- The switches of the command. -/
def switches : List Switch :=
  [⟨"config-files", none, .many, true⟩, ⟨"source-path", none, .one, true⟩,
    ⟨"lexc-path", none, .one, true⟩, ⟨"database-paths", none, .many, false⟩,
    ⟨"skip-lexical-database", none, .nothing, false⟩, ⟨"verbose", some 'v', .nothing, false⟩]

/-- Reads the arguments of the command. -/
def Options.parse (args : List String) : Except Usage Options := do
  let uses ← CommandLine.parse switches args
  let one := fun name => (valuesOf uses name).head?.getD ""
  return {
    configs := valuesOf uses "config-files"
    sourceDir := one "source-path"
    outputDir := one "lexc-path"
    dictionaryDirs := valuesOf uses "database-paths"
    dictionaries := timesUsed uses "skip-lexical-database" = 0
    verbose := timesUsed uses "verbose" > 0 }

/-- A network and the path of the file for it. -/
structure Output where
  path : String
  network : Network
deriving DecidableEq

/-- A build in progress: the alphabet of all networks, the networks, the names of their roots, and
what was told. -/
structure Session where
  alphabet : Alphabet
  outputs : List Output
  roots : List String
  notices : List Notice

/-- The session before any configuration. -/
def Session.initial : Session := ⟨SortedSet.empty, [], [], []⟩

variable (o : Options) (disk : Disk)

/-- Where the tables and dictionaries of the build are. -/
def Options.sources : Sources :=
  ⟨disk, o.sourceDir, if o.dictionaries then some o.dictionaryDirs else none⟩

/-- Compiles one network of a configuration, if there is a file for it. -/
def addNetwork (path : String) (c : Config) (s : Session) (m : Mode) :
    Session × Except Failure Unit :=
  match c.fileFor m with
  | none => (s, .ok ())
  | some file =>
    let result := compile (o.sources disk) c m s.alphabet
    let s := { s with alphabet := result.alphabet, notices := s.notices ++ result.notices }
    match result.outcome with
    | .error e => (s, .error ⟨"Failed to compile " ++ path, some e.message⟩)
    | .ok compiled =>
      ({ s with
          outputs := s.outputs ++ [⟨Path.join o.outputDir file, compiled.network⟩]
          roots := s.roots ++ [c.rootFor m] },
        .ok ())

/-- Compiles the networks of the configuration at a path. -/
def addConfig (s : Session) (path : String) : Session × Except Failure Unit :=
  let s := { s with notices := s.notices ++ [.openingConfig path] }
  match Config.load disk path with
  | .error e => (s, .error ⟨"Invalid configuration " ++ path, some e.message⟩)
  | .ok c =>
    match addNetwork o disk path c s .regular with
    | (s, .ok ()) => addNetwork o disk path c s .irregular
    | (s, .error e) => (s, .error e)

/-- Compiles the networks of configurations, up to the first that fails. -/
def addConfigs (s : Session) : List String → Session × Except Failure Unit
  | [] => (s, .ok ())
  | path :: paths =>
    match addConfig o disk s path with
    | (s, .ok ()) => addConfigs s paths
    | (s, .error e) => (s, .error e)

/-- What is told before a network is written: the sublexicons that are nowhere defined and the flags
that nothing sets. -/
def checkNotices (a : Alphabet) (output : Output) : List Notice :=
  (output.network.dangling.toList.map fun n => Notice.neverDefined output.path n) ++
    ((a.neverSet output.network.flags.toList).map fun f => Notice.neverSet output.path f) ++
    [.writingFile output.path]

/-- Writes a text to a file. -/
def writeText (disk : Disk) (path text : String) : Except Failure Disk :=
  match disk.write path (Bytes.ofText text) with
  | .ok disk => .ok disk
  | .error e => .error ⟨"Failed to create " ++ path, some e.message⟩

/-- Writes the sources of networks, up to the first that cannot be written. -/
def writeOutputs (a : Alphabet) (disk : Disk) : List Output → List Notice × Disk × Option Failure
  | [] => ([], disk, none)
  | output :: outputs =>
    match writeText disk output.path output.network.source with
    | .error e => (checkNotices a output, disk, some e)
    | .ok disk =>
      let (notices, disk, failure) := writeOutputs a disk outputs
      (checkNotices a output ++ [.writingSublexicons output.network.size] ++ notices, disk, failure)

/-- The path of the root source. -/
def Options.rootPath : String := Path.join o.outputDir "root.lexc"

/-- Writes all sources of a session, the root source last. -/
def writeAll (s : Session) : Outcome :=
  let (notices, disk, failure) := writeOutputs s.alphabet disk s.outputs
  let notices := s.notices ++ notices
  match failure with
  | some e => ⟨.failed e, notices, disk⟩
  | none =>
    let notices := notices ++ [.writingFile o.rootPath]
    match writeText disk o.rootPath (s.alphabet.rootSource s.roots) with
    | .error e => ⟨.failed e, notices, disk⟩
    | .ok disk => ⟨.done, notices, disk⟩

/-- Builds everything.  The output directory is made first. -/
def run : Outcome :=
  match disk.createDirectories o.outputDir with
  | .error e => ⟨.failed ⟨"Failed to create " ++ o.outputDir, some e.message⟩, [], disk⟩
  | .ok disk =>
    match addConfigs o disk .initial o.configs with
    | (s, .error e) => ⟨.failed e, s.notices, disk⟩
    | (s, .ok ()) => writeAll o disk s

/-- The paths of what the networks of a configuration are made from and written to. -/
def Options.configPaths (c : Config) : List String :=
  let tables := (c.regularTables ++ c.irregularTables).map (c.tablePath o.sourceDir)
  let dictionaries := (c.dictionary.toList ++ c.classMap.toList).flatMap fun name =>
    o.dictionaryDirs.map fun dir => Path.join dir name
  let outputs := ([Mode.regular, .irregular].filterMap c.fileFor).map (Path.join o.outputDir)
  tables ++ dictionaries ++ outputs

/-- The paths that a build looks at, so far as the configurations are on the disk. -/
def Options.paths : List String :=
  o.configs ++ [o.outputDir, o.rootPath] ++
    (o.configs.filterMap fun path => (Config.load disk path).toOption).flatMap o.configPaths

/-- The paths that the command looks at, so far as the disk tells them. -/
def paths (args : List String) (disk : Disk) : List String :=
  match Options.parse args with
  | .error _ => []
  | .ok o => o.paths disk

/-- Runs the command. -/
def command (args : List String) (disk : Disk) : Outcome :=
  match Options.parse args with
  | .error u => ⟨.usage u, [], disk⟩
  | .ok o => run o disk

end Morphotactics.CommandLine.Build
