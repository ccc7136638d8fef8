import Morphotactics.Dictionary

/-!
# Class maps

A class map tells the inflectional class for each part of speech of a dictionary.
-/

namespace Morphotactics

/-- A map from parts of speech to inflectional classes; each part of speech comes once. -/
structure ClassMap where
  classes : List (String × String)
deriving DecidableEq, Repr

namespace ClassMap

/-- The map without parts of speech. -/
def empty : ClassMap := ⟨[]⟩

/-- The map with the class of a part of speech, in place of the class it had before. -/
def insert (m : ClassMap) (partOfSpeech inflClass : String) : ClassMap :=
  ⟨(partOfSpeech, inflClass) :: m.classes.filter fun p => p.1 ≠ partOfSpeech⟩

/-- The map of a list of pairs, of which later ones win. -/
def ofList (pairs : List (String × String)) : ClassMap :=
  pairs.foldl (fun m p => m.insert p.1 p.2) empty

/-- The number of parts of speech. -/
def size (m : ClassMap) : Nat := m.classes.length

/-- The class of a word: the one of its part of speech, cut of blanks. -/
def classify (m : ClassMap) : Classifier := fun r =>
  r.partOfSpeech.bind fun p => m.classes.lookup (Text.trim p)

/-- Reads the part of speech and the class of a record, which are known by the header or, where the
header is not text, by their places. -/
def readRecord (header : Option (List String)) (r : Csv.Record) :
    Except Csv.Fault (String × String) :=
  match header with
  | some header => do
    let under := Dictionary.cellsUnder header r.cells
    let partOfSpeech ← Dictionary.requiredCell r.line (under ["part_of_speech_id"])
    let inflClass ← Dictionary.requiredCell r.line (under ["class", "Class"])
    return (Text.trim partOfSpeech, Text.trim inflClass)
  | none =>
    match r.cells with
    | partOfSpeech :: inflClass :: _ => .ok (Text.trim partOfSpeech, Text.trim inflClass)
    | _ => .error (.unfit r.line)

/-- The class map that a file holds.  Its records have to be as long as its header. -/
def parse (file : Bytes) : Except Csv.Fault ClassMap := do
  let (header, records) := Csv.split file
  let names := (header.decode.map Csv.Record.cells).toOption
  let pairs ← records.mapM fun raw => do
    if raw.cells.length ≠ header.cells.length then throw (.unequalLengths raw.place.line)
    readRecord names (← raw.decode)
  return ofList pairs

/-- The class map at a path. -/
def load (disk : Disk) (path : String) : Except DictionaryError ClassMap :=
  match disk.read path with
  | .error e => .error (.unreadable path (.unreadable e))
  | .ok file =>
    match parse file with
    | .ok m => .ok m
    | .error fault => .error (.unreadable path fault)

end ClassMap

end Morphotactics
