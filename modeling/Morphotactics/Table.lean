import Morphotactics.Config
import Morphotactics.Csv
import Morphotactics.Inflection
import Morphotactics.SortedSet
import Morphotactics.Text.Blank

/-!
# Paradigm tables

A paradigm table is a sheet with one inflected form in each record.  Columns are known by the names
in the header, cut of blanks; where a name comes more than once its last column counts.  The columns
`Paradigm`, `Class`, `Lemma` and `Stem` and the configured features are needed; a variant of the
form with the number `i` is in the columns `Form{i}Surface` and `Form{i}Split`.

`Table.rows` reads all records.  A variant that cannot be segmented is left out with a warning, and
a record without usable variants gives an error of its own.
-/

namespace Morphotactics

/-- Where a record stands. -/
structure Location where
  table : String
  line : Nat
deriving DecidableEq, Repr

/-- A location as a text. -/
def Location.text (l : Location) : String := l.table ++ ":" ++ toString l.line

/-- A record without usable variants. -/
structure NoVariants where
  location : Location
  paradigm : String
  headword : String
deriving DecidableEq, Repr

/-- What is told about a record without usable variants. -/
def NoVariants.message (e : NoVariants) : String :=
  e.location.text ++ ": no usable surface forms for " ++ e.paradigm ++ " " ++ Text.quoted e.headword

/-- What is amiss with a variant. -/
inductive VariantWarning where
  /-- A boundary was put in. -/
  | repaired (repair : Repair)
  /-- There is no column for the segmented form. -/
  | noSplitColumn (location : Location) (surface : String) (index : Nat)
  /-- The segmented form is malformed. -/
  | malformed (location : Location) (surface : String) (error : Malformed)
deriving DecidableEq, Repr

/-- The text of a warning. -/
def VariantWarning.message : VariantWarning → String
  | repaired r => r.message
  | noSplitColumn l surface i =>
    l.text ++ ": skipping form " ++ Text.quoted surface ++ ": no Form" ++ toString i ++
      "Split column"
  | malformed l surface e =>
    l.text ++ ": skipping form " ++ Text.quoted surface ++ ": " ++ e.message

/-- Why a table cannot be used. -/
inductive TableError where
  | unreadable (path : String) (fault : Csv.Fault)
  | missingColumn (table column : String)
deriving DecidableEq, Repr

/-- What is told about a table that cannot be used. -/
def TableError.message : TableError → String
  | unreadable path _ => "Failed to read paradigm table " ++ path
  | missingColumn table column => table ++ " is missing required column `" ++ column ++ "`"

/-- A paradigm table. -/
structure Table where
  /-- The name of the table in messages. -/
  name : String
  /-- The names of the columns, cut of blanks. -/
  header : List String
  records : List Csv.Record
deriving DecidableEq, Repr

/-- The columns of one variant. -/
structure VariantColumns where
  index : Nat
  surface : Nat
  split : Option Nat
deriving DecidableEq, Repr

/-- The columns that a row is read from. -/
structure RowColumns where
  paradigm : Nat
  inflClass : Nat
  headword : Nat
  stem : Nat
  features : List Nat
  variants : List VariantColumns
deriving DecidableEq, Repr

/-- What the columns of a variant give: the variant, if there is one, and warnings. -/
structure VariantReading where
  variant? : Option Variant
  warnings : List VariantWarning
deriving DecidableEq, Repr

/-- What a record gives. -/
structure RowReading where
  location : Location
  form : Except NoVariants Inflection
  warnings : List VariantWarning

namespace Table

/-- The table that a file holds.  The name is used in messages. -/
def parse (name : String) (file : Bytes) : Except Csv.Fault Table := do
  let (header, records) := Csv.split file
  let header ← header.decode
  let records ← records.mapM Csv.RawRecord.decode
  return ⟨name, header.cells.map Text.trim, records⟩

/-- The table at a path, known by the last step of the path. -/
def load (disk : Disk) (path : String) : Except TableError Table :=
  match disk.read path with
  | .error e => .error (.unreadable path (.unreadable e))
  | .ok file =>
    match parse ((Path.fileName? path).getD path) file with
    | .ok table => .ok table
    | .error fault => .error (.unreadable path fault)

/-- The position of the last element that equals the given one. -/
def lastIndexOf? (s : String) (l : List String) : Option Nat :=
  (l.zipIdx.filter fun p => p.1 == s).getLast?.map Prod.snd

/-- The position of a column. -/
def columnIndex? (t : Table) (column : String) : Option Nat := lastIndexOf? column t.header

/-- The position of a column that has to be there. -/
def columnIndex (t : Table) (column : String) : Except TableError Nat :=
  match t.columnIndex? column with
  | some i => .ok i
  | none => .error (.missingColumn t.name column)

/-- The cell of a record in a column; records may be too short to have it. -/
def rawCell (r : Csv.Record) (i : Nat) : String := r.cells[i]?.getD ""

/-- The cell of a record in a column, cut of blanks. -/
def cell (r : Csv.Record) (i : Nat) : String := Text.trim (rawCell r i)

/-- All cells of a column. -/
def columnCells (t : Table) (column : String) : Except TableError (List String) :=
  (t.columnIndex column).map fun i => t.records.map fun r => rawCell r i

/-- The name of the column for the surface text of the variant with a given number. -/
def surfaceColumn (i : Nat) : String := "Form" ++ toString i ++ "Surface"

/-- The name of the column for the segmented form of the variant with a given number. -/
def splitColumn (i : Nat) : String := "Form" ++ toString i ++ "Split"

/-- The number whose surface column has the given name. -/
def variantIndex? (column : String) : Option Nat :=
  let digits := (column.toList.drop 4).takeWhile Char.isDigit
  let i := digits.foldl (fun n c => 10 * n + (c.toNat - 48)) 0
  if surfaceColumn i = column then some i else none

/-- The numbers of the variants that the table has columns for, below a bound, in ascending
order. -/
def variantIndices (t : Table) (bound : Nat) : List Nat :=
  (SortedSet.ofList ((t.header.filterMap variantIndex?).filter (· < bound))).toList

/-- The columns of the variant with a given number. -/
def variantColumns? (t : Table) (i : Nat) : Option VariantColumns :=
  (t.columnIndex? (surfaceColumn i)).map fun surface =>
    ⟨i, surface, t.columnIndex? (splitColumn i)⟩

/-- The columns that rows are read from. -/
def rowColumns (t : Table) (c : Config) : Except TableError RowColumns := do
  let paradigm ← t.columnIndex "Paradigm"
  let inflClass ← t.columnIndex "Class"
  let headword ← t.columnIndex "Lemma"
  let stem ← t.columnIndex "Stem"
  let features ← c.features.mapM t.columnIndex
  return ⟨paradigm, inflClass, headword, stem, features,
    (t.variantIndices c.maxForms).filterMap t.variantColumns?⟩

/-- Reads one variant of a record. -/
def readVariant (c : Config) (l : Location) (r : Csv.Record) (v : VariantColumns) :
    VariantReading :=
  let surface := cell r v.surface
  if surface = "" ∨ surface = c.missingForm then ⟨none, []⟩
  else
    match v.split with
    | none => ⟨none, [.noSplitColumn l surface v.index]⟩
    | some i =>
      let form := cell r i
      let repairs := (Segmentation.repairs form).map VariantWarning.repaired
      match Segmentation.split form with
      | .ok parts => ⟨some ⟨surface, parts⟩, repairs⟩
      | .error e => ⟨none, repairs ++ [.malformed l surface e]⟩

/-- Reads one record. -/
def readRow (t : Table) (c : Config) (columns : RowColumns) (r : Csv.Record) : RowReading :=
  let l : Location := ⟨t.name, r.line⟩
  let readings := columns.variants.map (readVariant c l r)
  let paradigm := cell r columns.paradigm
  let headword := escape (cell r columns.headword)
  let values := (columns.features.map (cell r)).filter fun v => v ≠ "" ∧ v ≠ c.missingTag
  let form : Except NoVariants Inflection :=
    match readings.filterMap VariantReading.variant? with
    | [] => .error ⟨l, paradigm, headword⟩
    | variants =>
      .ok ⟨paradigm, cell r columns.inflClass, headword, escape (cell r columns.stem),
        values.map tag, variants⟩
  ⟨l, form, readings.flatMap VariantReading.warnings⟩

/-- Reads all records.  This fails only where a column is missing. -/
def rows (t : Table) (c : Config) : Except TableError (List RowReading) :=
  (t.rowColumns c).map fun columns => t.records.map (t.readRow c columns)

end Table

end Morphotactics
