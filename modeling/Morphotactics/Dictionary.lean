import Morphotactics.Csv
import Morphotactics.Network
import Morphotactics.Text.Blank

/-!
# Dictionaries

A dictionary lists more words of a part of speech.  Each of its records may add a stem to a network,
from a stem sublexicon to a stem boundary that the network already has; the class of the word stands
in the record or is told by a classifier, such as a map from parts of speech to classes.
-/

namespace Morphotactics

/-- A word of a dictionary. -/
structure DictionaryRecord where
  headword : String
  stem : String
  inflClass : Option String
  paradigm : Option String
  partOfSpeech : Option String
deriving DecidableEq, Repr

/-- A dictionary: its name in messages, and its words with the lines they stand on. -/
structure Dictionary where
  name : String
  records : List (Nat × DictionaryRecord)
deriving DecidableEq, Repr

/-- Why a dictionary or class map cannot be used. -/
inductive DictionaryError where
  | unreadable (path : String) (fault : Csv.Fault)
  | notFound (name : String) (dirs : List String)
deriving DecidableEq, Repr

/-- What is told about a dictionary that cannot be used. -/
def DictionaryError.message : DictionaryError → String
  | unreadable path _ => "Failed to read lexical database " ++ path
  | notFound name dirs =>
    "Lexical database " ++ name ++ " not found in any of " ++ Text.quotedList dirs

/-- What tells the inflectional class of a word. -/
abbrev Classifier := DictionaryRecord → Option String

/-- The classifier that knows no class. -/
def Classifier.none : Classifier := fun _ => Option.none

/-- Why a word is not added. -/
inductive SkipReason where
  | unclassified
  | unknownSublexicon (name : Sublexicon)
deriving DecidableEq, Repr

/-- The words for a reason. -/
def SkipReason.message : SkipReason → String
  | unclassified => "no inflectional class"
  | unknownSublexicon n => n.text ++ " is not defined by the paradigm tables"

/-- A word that was not added. -/
structure SkippedWord where
  dictionary : String
  line : Nat
  headword : String
  reason : SkipReason
deriving DecidableEq, Repr

/-- What is told about a word that was not added. -/
def SkippedWord.message (w : SkippedWord) : String :=
  w.dictionary ++ ":" ++ toString w.line ++ ": skipping lexical entry " ++ Text.quoted w.headword ++
    ": " ++ w.reason.message

/-- How many words of a dictionary were looked at, added and skipped. -/
structure DictionarySummary where
  checked : Nat
  added : Nat
  skipped : Nat
deriving DecidableEq, Repr

/-- A summary as a text. -/
def DictionarySummary.message (s : DictionarySummary) : String :=
  "Checked " ++ toString s.checked ++ " lexical entries. Added " ++ toString s.added ++
    " entries to lexc file. Skipped " ++ toString s.skipped ++ " invalid ones"

/-- A network to which words are added, with the number of words added so far and those skipped. -/
structure Addition where
  network : Network
  added : Nat
  skipped : List SkippedWord
deriving DecidableEq

namespace Dictionary

/-- The cells of a record under the headers with one of the given names.  A header beyond the last
cell has none, and cells beyond the last header do not count. -/
def cellsUnder (header cells names : List String) : List (Option String) :=
  (header.zipIdx.filter fun p => names.contains p.1).map fun p => cells[p.2]?

/-- The cell of a column that has to be there once. -/
def requiredCell (line : Nat) : List (Option String) → Except Csv.Fault String
  | [some s] => .ok s
  | _ => .error (.unfit line)

/-- The cell of a column that may be there once.  An empty cell is none. -/
def optionalCell (line : Nat) : List (Option String) → Except Csv.Fault (Option String)
  | [] => .ok none
  | [cell?] => .ok (cell?.filter fun s => s ≠ "")
  | _ => .error (.unfit line)

/-- The names of the columns whose cells a record may lack. -/
def optionalColumns : List String := ["class", "Class", "paradigm", "Paradigm", "part_of_speech_id"]

/-- Reads the word of a record, which may end early only where optional columns follow. -/
def readRecord (header : List String) (r : Csv.Record) : Except Csv.Fault DictionaryRecord := do
  if !(header.drop r.cells.length).all optionalColumns.contains then throw (.unfit r.line)
  let under := cellsUnder header r.cells
  return {
    headword := ← requiredCell r.line (under ["lemma", "Lemma"])
    stem := ← requiredCell r.line (under ["stem", "Stem"])
    inflClass := ← optionalCell r.line (under ["class", "Class"])
    paradigm := ← optionalCell r.line (under ["paradigm", "Paradigm"])
    partOfSpeech := ← optionalCell r.line (under ["part_of_speech_id"]) }

/-- The dictionary that a file holds.  Reading stops at the first record that is amiss. -/
def parse (name : String) (file : Bytes) : Except Csv.Fault Dictionary := do
  let (header, records) := Csv.split file
  let header ← header.decode
  let records ← records.mapM fun raw => do
    let r ← raw.decode
    return (r.line, ← readRecord header.cells r)
  return ⟨name, records⟩

/-- The dictionary at a path, known by that path. -/
def load (disk : Disk) (path : String) : Except DictionaryError Dictionary :=
  match disk.read path with
  | .error e => .error (.unreadable path (.unreadable e))
  | .ok file =>
    match parse path file with
    | .ok d => .ok d
    | .error fault => .error (.unreadable path fault)

/-- The path of a dictionary in the first directory that has a file of its name. -/
def locate (disk : Disk) (name : String) (dirs : List String) : Except DictionaryError String :=
  match (dirs.map fun dir => Path.join dir name).find? disk.isFile with
  | some path => .ok path
  | none => .error (.notFound name dirs)

/-- The paradigm that a class belongs to: what stands before the first low line. -/
def paradigmOf (inflClass : String) : String :=
  String.ofList (inflClass.toList.takeWhile (· ≠ '_'))

/-- A cell cut of blanks, unless nothing is left. -/
def filled? (cell : Option String) : Option String :=
  (cell.map Text.trim).filter fun s => s ≠ ""

/-- The stem entry of a word, if its class is known and the network has the sublexicons for it. -/
def stemEntry (classify : Classifier) (g : Network) (r : DictionaryRecord) :
    Except SkipReason Entry := do
  let some inflClass := (filled? r.inflClass).or (classify r) | throw .unclassified
  let paradigm := (filled? r.paradigm).getD (paradigmOf inflClass)
  let stems := Sublexicon.stems paradigm
  let boundary := Sublexicon.stemBoundary paradigm inflClass
  if !g.defines stems then throw (.unknownSublexicon stems)
  if !g.defines boundary then throw (.unknownSublexicon boundary)
  return ⟨stems, escape (Text.trim r.headword), escape (Text.trim r.stem), boundary⟩

/-- Adds one word. -/
def addRecord (name : String) (classify : Classifier) (a : Addition)
    (r : Nat × DictionaryRecord) : Addition :=
  match stemEntry classify a.network r.2 with
  | .ok e => { a with network := a.network.insert e, added := a.added + 1 }
  | .error reason =>
    { a with skipped := a.skipped ++ [⟨name, r.1, r.2.headword, reason⟩] }

/-- Adds all words to a network. -/
def addTo (d : Dictionary) (classify : Classifier) (g : Network) : Addition :=
  d.records.foldl (addRecord d.name classify) ⟨g, 0, []⟩

/-- The summary of adding all words. -/
def summary (d : Dictionary) (a : Addition) : DictionarySummary :=
  ⟨d.records.length, a.added, a.skipped.length⟩

end Dictionary

end Morphotactics
