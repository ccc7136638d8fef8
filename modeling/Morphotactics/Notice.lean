import Morphotactics.Dictionary
import Morphotactics.Table

/-!
# Notices

What is told while networks are compiled: warnings about what was left out or put right, and
information about what is going on.
-/

namespace Morphotactics

/-- What may be told. -/
inductive Notice where
  /-- A variant is put right or left out. -/
  | variant (warning : VariantWarning)
  /-- A record is left out. -/
  | noVariants (error : NoVariants)
  /-- A word of a dictionary is left out. -/
  | skippedWord (word : SkippedWord)
  /-- A sublexicon that entries of a network lead to is nowhere defined. -/
  | neverDefined (path : String) (name : Sublexicon)
  /-- A flag of a network checks what nothing sets. -/
  | neverSet (path : String) (flag : Flag)
  | compilingTable (path : String)
  | openingDictionary (path : String)
  | dictionaryAdded (summary : DictionarySummary)
  | compiled (root : String) (rows skipped sublexicons entries : Nat)
  | writingSublexicons (count : Nat)
  | readingTags (path : String)
  | openingConfig (path : String)
  | writingFile (path : String)
deriving DecidableEq, Repr

namespace Notice

/-- Whether a notice is a warning. -/
def isWarning : Notice → Bool
  | variant _ | noVariants _ | skippedWord _ | neverDefined _ _ | neverSet _ _ => true
  | _ => false

/-- The text of a notice. -/
def message : Notice → String
  | variant w => w.message
  | noVariants e => e.message
  | skippedWord w => w.message
  | neverDefined path n => path ++ ": continuation lexicon " ++ n.text ++ " is never defined"
  | neverSet path f => path ++ ": " ++ f.symbol ++ " is never set"
  | compilingTable path => "Reading lexicon entries from " ++ path
  | openingDictionary path => "Reading external lexical database " ++ path
  | dictionaryAdded s => s.message
  | compiled root rows skipped sublexicons entries =>
    root ++ ": " ++ toString rows ++ " rows (" ++ toString skipped ++ " skipped), " ++
      toString sublexicons ++ " sublexicons, " ++ toString entries ++ " entries"
  | writingSublexicons n => "Writing " ++ toString n ++ " sublexicons"
  | readingTags path => "Reading " ++ path
  | openingConfig path => "Processing configuration file " ++ path
  | writingFile path => "Writing " ++ path

end Notice

end Morphotactics
