import Morphotactics.Disk

/-!
# Comma-separated values

Sheets of cells as files hold them.  Commas separate the cells of a record, and line ends separate
records; lines without any character are no records.  A cell that starts with a quote goes on to the
next quote that stands alone, and two quotes inside it are one quote; what follows the closing quote
up to the comma belongs to the cell as well.  A quote in any other place is a plain character.

The reader is a machine that takes one byte after the other (`Csv.advance`).
-/

namespace Morphotactics.Csv

/-- A place in a file: how many records, line feeds and bytes stand before it.  Lines are counted
from one. -/
structure Place where
  record : Nat
  line : Nat
  byte : Nat
deriving DecidableEq, Repr

/-- A record as bytes, with the place where the reading of it began. -/
structure RawRecord where
  place : Place
  cells : List Bytes
deriving DecidableEq, Repr

/-- What the reader is in the middle of. -/
inductive State where
  /-- Before the first byte of a record. -/
  | outside
  /-- Before the first byte of a cell. -/
  | cellStart
  /-- In a cell, outside of quotes. -/
  | plain
  /-- In a cell, inside of quotes. -/
  | quoted
  /-- After a quote inside of quotes, which closes them unless another one follows. -/
  | quoteSeen
deriving DecidableEq, Repr

/-- The reader: its state, the present place and the one where the present record began, the bytes
of the present cell and the finished cells, both backwards. -/
structure Reader where
  state : State
  place : Place
  start : Place
  cell : Bytes
  cells : List Bytes
deriving DecidableEq, Repr

/-- The reader of a file after a number of bytes that are passed over. -/
def Reader.initial (passed : Nat) : Reader := ⟨.outside, ⟨0, 1, passed⟩, ⟨0, 1, 0⟩, [], []⟩

def comma : UInt8 := 0x2C
def quote : UInt8 := 0x22
def lineFeed : UInt8 := 0x0A
def carriageReturn : UInt8 := 0x0D

/-- Whether a byte ends a record. -/
def endsRecord (b : UInt8) : Bool := b == lineFeed || b == carriageReturn

/-- The record that the reader is in the middle of, if it ended here. -/
def Reader.record (r : Reader) : RawRecord := ⟨r.start, (r.cell.reverse :: r.cells).reverse⟩

/-- The reader at the end of a cell. -/
def Reader.endCell (r : Reader) : Reader :=
  { r with state := .cellStart, cell := [], cells := r.cell.reverse :: r.cells }

/-- The reader at the end of a record. -/
def Reader.endRecord (r : Reader) : Reader :=
  let place := { r.place with record := r.place.record + 1 }
  ⟨.outside, place, place, [], []⟩

/-- The reader with one more byte of the present cell. -/
def Reader.push (r : Reader) (state : State) (b : UInt8) : Reader :=
  { r with state := state, cell := b :: r.cell }

/-- The reader after a byte that is no part of a quoted text: the record that the byte ends, if it
does, and the reader that goes on. -/
def Reader.takePlain (r : Reader) (b : UInt8) : Option RawRecord × Reader :=
  if b == comma then (none, r.endCell)
  else if endsRecord b then (some r.record, r.endRecord)
  else (none, r.push .plain b)

/-- The reader after a byte at the start of a cell. -/
def Reader.takeFirst (r : Reader) (b : UInt8) : Option RawRecord × Reader :=
  if b == quote then (none, { r with state := .quoted }) else r.takePlain b

/-- The place after one more byte. -/
def Place.after (p : Place) (b : UInt8) : Place :=
  ⟨p.record, if b == lineFeed then p.line + 1 else p.line, p.byte + 1⟩

/-- Takes one byte.  The place is moved first, so that the next record begins on the line after a
line feed. -/
def advance (r : Reader) (b : UInt8) : Option RawRecord × Reader :=
  let r := { r with place := r.place.after b }
  match r.state with
  | .outside => if endsRecord b then (none, r) else r.takeFirst b
  | .cellStart => r.takeFirst b
  | .plain => r.takePlain b
  | .quoted =>
    if b == quote then (none, { r with state := .quoteSeen }) else (none, r.push .quoted b)
  | .quoteSeen => if b == quote then (none, r.push .quoted b) else r.takePlain b

/-- The records that the reader finds in the rest of a file. -/
def Reader.run (r : Reader) : Bytes → List RawRecord
  | [] => if r.state = .outside then [] else [r.record]
  | b :: rest =>
    match advance r b with
    | (none, r) => r.run rest
    | (some record, r) => record :: r.run rest

/-- A file without the byte order mark at its start. -/
def withoutMark : Bytes → Bytes
  | 0xEF :: 0xBB :: 0xBF :: rest => rest
  | file => file

/-- All records of a file. -/
def rawRecords (file : Bytes) : List RawRecord :=
  let rest := withoutMark file
  (Reader.initial (file.length - rest.length)).run rest

/-- A record of texts, with the number of its line. -/
structure Record where
  line : Nat
  cells : List String
deriving DecidableEq, Repr

/-- Why a sheet cannot be read. -/
inductive Fault where
  /-- The file cannot be read at all. -/
  | unreadable (error : DiskError)
  /-- In the record that begins at a place the cell of a number is not text after so many bytes. -/
  | notText (place : Place) (cell valid : Nat)
  /-- The record that begins on this line has more or fewer cells than the header. -/
  | unequalLengths (line : Nat)
  /-- The record that begins on this line does not have the cells that are needed. -/
  | unfit (line : Nat)
deriving DecidableEq, Repr

/-- The line that a fault is on. -/
def Fault.line? : Fault → Option Nat
  | unreadable _ => none
  | notText place _ _ => some place.line
  | unequalLengths line => some line
  | unfit line => some line

/-- The number of bytes up to which a cell is text. -/
def validLength (cell : Bytes) : Nat :=
  ((List.range (cell.length + 1)).reverse.find? fun n => (Bytes.text? (cell.take n)).isSome).getD 0

/-- The texts of cells, of which the first has the given number; each has to be text of its own. -/
def decodeCells (place : Place) (number : Nat) : List Bytes → Except Fault (List String)
  | [] => .ok []
  | cell :: rest =>
    match Bytes.text? cell with
    | some s => (decodeCells place (number + 1) rest).map fun more => s :: more
    | none => .error (.notText place number (validLength cell))

/-- The record of texts that bytes spell. -/
def RawRecord.decode (r : RawRecord) : Except Fault Record :=
  (decodeCells r.place 0 r.cells).map fun cells => ⟨r.place.line, cells⟩

/-- The header of a file, which is its first record, and the records after it.  An empty file has an
empty header. -/
def split (file : Bytes) : RawRecord × List RawRecord :=
  match rawRecords file with
  | [] => (⟨⟨0, 1, 0⟩, []⟩, [])
  | header :: records => (header, records)

end Morphotactics.Csv
