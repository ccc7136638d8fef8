import Morphotactics.Text.Pieces

/-!
# Command line arguments

A command takes switches with long names, such as `--verbose`, and some of them also by a letter,
such as `-v`.  A switch takes no value, one value, or many: many values may be given after one
another, and each argument may hold several, separated by commas.  All else is wrong usage.
-/

namespace Morphotactics.CommandLine

/-- How many values a switch takes. -/
inductive Takes where
  | nothing
  | one
  | many
deriving DecidableEq, Repr

/-- A switch of a command. -/
structure Switch where
  name : String
  letter : Option Char
  takes : Takes
  required : Bool
deriving DecidableEq, Repr

/-- Why a command does not run. -/
inductive Usage where
  /-- Help or the version was asked for. -/
  | information
  /-- The arguments are not understood. -/
  | wrong
deriving DecidableEq, Repr

/-- One use of a switch, with its values. -/
structure Use where
  name : String
  values : List String
deriving DecidableEq, Repr

/-- What an argument may be read as. -/
inductive Expectation where
  /-- A switch. -/
  | switch
  /-- A switch, or a value of the latest switch, which takes so many. -/
  | value (takes : Takes)
  /-- Nothing, since two hyphens have closed the list of switches. -/
  | nothing
deriving DecidableEq, Repr

/-- Arguments in the reading: the uses of switches, the latest first, and what may follow. -/
structure Reading where
  uses : List Use
  expected : Expectation
deriving DecidableEq, Repr

/-- The values that an argument holds.  A comma at its end adds no empty one. -/
def commaValues (arg : String) : List String :=
  let pieces := Text.pieces ',' arg
  if pieces.length > 1 && pieces.getLast? = some "" then pieces.dropLast else pieces

/-- Whether an argument is a value and not a switch.  A single hyphen is a value. -/
def isValue (arg : String) : Bool := arg.toList.head? ≠ some '-' || arg = "-"

/-- The uses with more values of the latest one. -/
def addValues (values : List String) : List Use → List Use
  | [] => []
  | u :: uses => { u with values := u.values ++ values } :: uses

/-- Reads a value of the latest switch.  After an argument with a comma no more are expected. -/
def Reading.takeValue (r : Reading) (takes : Takes) (arg : String) : Reading :=
  match takes with
  | .many =>
    ⟨addValues (commaValues arg) r.uses,
      if arg.toList.contains ',' then .switch else .value .many⟩
  | _ => ⟨addValues [arg] r.uses, .switch⟩

/-- The name of a long switch and the value that is joined to it by an equals sign, if one is. -/
def splitSwitch (arg : String) : String × Option String :=
  let cs := arg.toList.dropWhile (· = '-')
  let name := String.ofList (cs.takeWhile (· ≠ '='))
  if cs.contains '=' then
    (name, some (String.ofList ((cs.dropWhile (· ≠ '=')).dropWhile (· = '='))))
  else (name, none)

/-- Reads a long switch.  A value that is joined to a switch without values is not looked at. -/
def Reading.takeLong (switches : List Switch) (r : Reading) (arg : String) :
    Except Usage Reading :=
  let (name, value) := splitSwitch arg
  match switches.find? fun s => s.name = name with
  | some s =>
    let uses := ⟨name, []⟩ :: r.uses
    match s.takes, value with
    | .nothing, _ => .ok ⟨uses, .switch⟩
    | takes, none => .ok ⟨uses, .value takes⟩
    | takes, some v => .ok { (Reading.takeValue ⟨uses, .switch⟩ takes v) with expected := .switch }
  | none =>
    if name = "help" ∨ name = "version" then .error .information else .error .wrong

/-- Reads letters.  Only switches without values have letters. -/
def Reading.takeLetters (switches : List Switch) (r : Reading) : List Char → Except Usage Reading
  | [] => .ok { r with expected := .switch }
  | c :: rest =>
    match switches.find? fun s => s.letter = some c with
    | some s => Reading.takeLetters switches { r with uses := ⟨s.name, []⟩ :: r.uses } rest
    | none => if c = 'h' ∨ c = 'V' then .error .information else .error .wrong

/-- Reads one argument. -/
def Reading.take (switches : List Switch) (r : Reading) (arg : String) : Except Usage Reading :=
  match r.expected with
  | .nothing => .error .wrong
  | expected =>
    if isValue arg then
      match expected with
      | .value takes => .ok (r.takeValue takes arg)
      | _ => .error .wrong
    else if arg = "--" then .ok { r with expected := .nothing }
    else if arg.toList.take 2 = ['-', '-'] then r.takeLong switches arg
    else r.takeLetters switches (arg.toList.dropWhile (· = '-'))

/-- All values that were given to a switch, in their order. -/
def valuesOf (uses : List Use) (name : String) : List String :=
  (uses.reverse.filter fun u => u.name = name).flatMap Use.values

/-- How often a switch was used. -/
def timesUsed (uses : List Use) (name : String) : Nat :=
  (uses.filter fun u => u.name = name).length

/-- Whether a switch was used as it should: as often as it may be, and with a value if it takes
any. -/
def Switch.accepts (s : Switch) (uses : List Use) : Bool :=
  let times := timesUsed uses s.name
  (times > 0 || !s.required) && (times ≤ 1 || s.takes = .many) &&
    (times = 0 || s.takes = .nothing || !(valuesOf uses s.name).isEmpty)

/-- The uses of switches in the arguments of a command. -/
def parse (switches : List Switch) (args : List String) : Except Usage (List Use) := do
  let r ← args.foldlM (Reading.take switches) ⟨[], .switch⟩
  if switches.all fun s => s.accepts r.uses then return r.uses else throw .wrong

end Morphotactics.CommandLine
