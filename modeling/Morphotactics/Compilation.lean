import Morphotactics.Builder
import Morphotactics.ClassMap
import Morphotactics.Notice

/-!
# Compilation

Compiling reads the tables of a configuration, and its dictionary if dictionaries are wanted, into
one network, and collects the symbols of the network in an alphabet that many compilations share.
-/

namespace Morphotactics

/-- Why a network cannot be compiled. -/
inductive CompileError where
  | table (error : TableError)
  | dictionary (error : DictionaryError)
deriving DecidableEq, Repr

/-- What is told about a network that cannot be compiled. -/
def CompileError.message : CompileError → String
  | table e => e.message
  | dictionary e => e.message

/-- What was counted while tables were read. -/
structure Counts where
  /-- All records. -/
  rows : Nat
  /-- Records without usable variants. -/
  skippedRows : Nat
  /-- Chains, one for each usable variant. -/
  chains : Nat
deriving DecidableEq, Repr

/-- A network and how it came about. -/
structure Compiled where
  network : Network
  counts : Counts
  dictionary : Option DictionarySummary
deriving DecidableEq

/-- What a compilation leaves: the alphabet, which keeps what was added even where the compilation
fails, the notices, and the network. -/
structure Compilation where
  alphabet : Alphabet
  notices : List Notice
  outcome : Except CompileError Compiled

/-- What is to be compiled, and from where. -/
structure Sources where
  disk : Disk
  /-- The directory that the paths of tables start from. -/
  sourceDir : String
  /-- The directories where dictionaries are looked for, if dictionaries are wanted. -/
  dictionaryDirs : Option (List String)

/-- A compilation in progress. -/
structure Progress where
  alphabet : Alphabet
  network : Network
  counts : Counts
  notices : List Notice

namespace Progress

/-- The progress before any table is read: what the configuration declares is in the alphabet. -/
def initial (c : Config) (m : Mode) (a : Alphabet) : Progress :=
  ⟨a.declare c.declared, .ofRoot (c.rootFor m), ⟨0, 0, 0⟩, []⟩

/-- The progress after a notice. -/
def note (p : Progress) (n : Notice) : Progress := { p with notices := p.notices ++ [n] }

/-- The progress after a record. -/
def addRow (l : Layout) (p : Progress) (r : RowReading) : Progress :=
  let notices := p.notices ++ r.warnings.map Notice.variant
  match r.form with
  | .ok form =>
    let (chains, alphabet) := (l.build form).run p.alphabet
    { alphabet
      network := p.network.extend chains
      counts := { p.counts with
        rows := p.counts.rows + 1
        chains := p.counts.chains + chains.length }
      notices }
  | .error e =>
    { p with
      counts := { p.counts with
        rows := p.counts.rows + 1
        skippedRows := p.counts.skippedRows + 1 }
      notices := notices ++ [.noVariants e] }

/-- The progress after a table, and whether the table could be used. -/
def addTable (s : Sources) (c : Config) (m : Mode) (p : Progress) (name : String) :
    Progress × Except TableError Unit :=
  let path := c.tablePath s.sourceDir name
  let p := p.note (.compilingTable path)
  match Table.load s.disk path with
  | .error e => (p, .error e)
  | .ok t =>
    match t.rows c with
    | .error e => (p, .error e)
    | .ok rows => (rows.foldl (addRow (c.layout m)) p, .ok ())

/-- The progress after tables, up to the first that cannot be used. -/
def addTables (s : Sources) (c : Config) (m : Mode) (p : Progress) :
    List String → Progress × Except TableError Unit
  | [] => (p, .ok ())
  | name :: names =>
    match p.addTable s c m name with
    | (p, .ok ()) => p.addTables s c m names
    | (p, .error e) => (p, .error e)

/-- The classifier of a configuration. -/
def classifier (disk : Disk) (c : Config) (dirs : List String) :
    Except DictionaryError Classifier :=
  match c.classMap with
  | none => .ok Classifier.none
  | some name => do
    let path ← Dictionary.locate disk name dirs
    return (← ClassMap.load disk path).classify

/-- The progress after a dictionary that is looked for in the given directories. -/
def addDictionary (disk : Disk) (c : Config) (dirs : List String) (p : Progress) (name : String) :
    Progress × Except DictionaryError DictionarySummary :=
  match Dictionary.locate disk name dirs with
  | .error e => (p, .error e)
  | .ok path =>
    let p := p.note (.openingDictionary path)
    match (do return (← Dictionary.load disk path, ← classifier disk c dirs) :
        Except DictionaryError (Dictionary × Classifier)) with
    | .error e => (p, .error e)
    | .ok (d, classify) =>
      let a := d.addTo classify p.network
      let summary := d.summary a
      ({ p with
          network := a.network
          notices := p.notices ++ a.skipped.map Notice.skippedWord ++
            [.dictionaryAdded summary] },
        .ok summary)

/-- The progress after the dictionary of a configuration, if it has one and dictionaries are
wanted.  Only regular networks take words from a dictionary. -/
def addDictionaries (s : Sources) (c : Config) (m : Mode) (p : Progress) :
    Progress × Except DictionaryError (Option DictionarySummary) :=
  match m, s.dictionaryDirs, c.dictionary with
  | .regular, some dirs, some name =>
    match p.addDictionary s.disk c dirs name with
    | (p, .ok summary) => (p, .ok (some summary))
    | (p, .error e) => (p, .error e)
  | _, _, _ => (p, .ok none)

end Progress

/-- Compiles the regular or the irregular network of a configuration. -/
def compile (s : Sources) (c : Config) (m : Mode) (a : Alphabet) : Compilation :=
  match (Progress.initial c m a).addTables s c m (c.tablesFor m) with
  | (p, .error e) => ⟨p.alphabet, p.notices, .error (.table e)⟩
  | (p, .ok ()) =>
    match p.addDictionaries s c m with
    | (p, .error e) => ⟨p.alphabet, p.notices, .error (.dictionary e)⟩
    | (p, .ok summary) =>
      let p := p.note (.compiled p.network.root.text p.counts.rows p.counts.skippedRows
        p.network.size p.network.entryCount)
      ⟨p.alphabet, p.notices, .ok ⟨p.network, p.counts, summary⟩⟩

end Morphotactics
