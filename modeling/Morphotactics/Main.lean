import Morphotactics.CommandLine.Build
import Morphotactics.CommandLine.Tags

/-!
# The program

The first argument names the command, `build` or `tags`, and the others are for the command.  All
that a command looks at is read into a `Disk`, the command is run on this value, and what it changed
is written back.
-/

namespace Morphotactics.CommandLine

/-- A command: what it looks at and what it does. -/
structure Command where
  paths : List String → Disk → List String
  run : List String → Disk → Outcome
  /-- Whether notices are told that are no warnings. -/
  talkative : Bool

/-- The command of a name. -/
def Command.ofName? : String → Option Command
  | "build" => some ⟨Build.paths, Build.command, true⟩
  | "tags" => some ⟨Tags.paths, Tags.command, false⟩
  | _ => none

/-- The disk with what is found at the end of a way. -/
def readWay (disk : Disk) (way : List String) : IO Disk := do
  if disk.hasDirectory way || (disk.fileAt way).isSome then return disk
  let path := Path.ofSteps way
  if ← (System.mkFilePath [path]).isDir then return disk.addDirectory way
  let .ok content ← (IO.FS.readBinFile path).toBaseIO | return disk
  return disk.put way content.toList

/-- The disk with what is found along paths. -/
def readPaths (disk : Disk) (paths : List String) : IO Disk :=
  (paths.flatMap disk.waysAlong).foldlM readWay disk

/-- Makes the directories and writes the files that a later disk has and an earlier one lacks. -/
def writeChanges (earlier later : Disk) : IO Unit := do
  for way in earlier.newDirectories later do
    IO.FS.createDirAll (Path.ofSteps way)
  for (way, content) in earlier.changedFiles later do
    IO.FS.writeBinFile (Path.ofSteps way) ⟨content.toArray⟩

/-- Tells notices. -/
def tell (talkative : Bool) (notices : List Notice) : IO Unit :=
  for n in notices do
    if n.isWarning then IO.eprintln ("WARN " ++ n.message)
    else if talkative then IO.eprintln ("INFO " ++ n.message)

/-- Tells how a command ended. -/
def tellEnding : Ending → IO Unit
  | .done => return
  | .usage .information => IO.println "commands: build, tags"
  | .usage .wrong => IO.eprintln "error: the arguments are not understood"
  | .failed f => do
    IO.eprintln ("Error: " ++ f.message)
    if let some cause := f.cause then IO.eprintln ("\nCaused by:\n    " ++ cause)

/-- Runs a command on the files that are there.  The configurations have to be read before it is
known which tables they name, so reading takes two rounds. -/
def Command.perform (c : Command) (args : List String) : IO UInt32 := do
  let start := Disk.emptyAt ((Path.steps (toString (← IO.currentDir))).filter fun s => s ≠ "")
  let configs ← readPaths start (c.paths args start)
  let disk ← readPaths configs (c.paths args configs)
  let outcome := c.run args disk
  tell c.talkative outcome.notices
  writeChanges disk outcome.disk
  tellEnding outcome.ending
  return outcome.ending.exitCode.toUInt32

end Morphotactics.CommandLine

open Morphotactics.CommandLine in
/-- Runs the command that the first argument names. -/
def main : List String → IO UInt32
  | name :: args =>
    match Command.ofName? name with
    | some c => c.perform args
    | none => do
      tellEnding (.usage .wrong)
      return 1
  | [] => do
    tellEnding (.usage .wrong)
    return 1
