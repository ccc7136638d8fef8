import Morphotactics.Path

/-!
# Disks

The state of all files as a value: which directories there are, what each file holds, and which
directory is the present one.  Paths are followed step by step, absolute ones from the top and
others from the present directory.
-/

namespace Morphotactics

/-- The content of a file. -/
abbrev Bytes := List UInt8

/-- The bytes of a text. -/
def Bytes.ofText (s : String) : Bytes := s.toUTF8.toList

/-- The text that bytes spell, if they do. -/
def Bytes.text? (b : Bytes) : Option String := String.fromUTF8? ⟨b.toArray⟩

/-- Files and directories, known by the names on the way to them from the top. -/
structure Disk where
  /-- The way to the present directory. -/
  here : List String
  files : List (List String × Bytes)
  /-- The ways to all directories below the top.  Each stands with its length, since most ways are
  told apart by their lengths. -/
  directories : List (Nat × List String)
deriving DecidableEq

/-- Why a file or directory cannot be used. -/
inductive DiskError where
  | missing
  | notADirectory
  | isADirectory
  | alreadyThere
  | nameTooLong
  | notAName
deriving DecidableEq, Repr

/-- The system's words for an error. -/
def DiskError.message : DiskError → String
  | missing => "No such file or directory (os error 2)"
  | notADirectory => "Not a directory (os error 20)"
  | isADirectory => "Is a directory (os error 21)"
  | alreadyThere => "File exists (os error 17)"
  | nameTooLong => "File name too long (os error 36)"
  | notAName => "file name contained an unexpected NUL byte"

/-- What a path leads to. -/
inductive Disk.Place where
  | file (way : List String) (content : Bytes)
  | directory (way : List String)
  /-- A name in an existing directory, where nothing is yet. -/
  | vacant (way : List String)
deriving DecidableEq, Repr

namespace Disk

/-- The ways to all directories that a way goes through, its end included. -/
def alongWay : List String → List (List String)
  | [] => []
  | name :: rest => [name] :: (alongWay rest).map (name :: ·)

/-- The disk without files and with no directories but those on the way to the present one. -/
def emptyAt (here : List String) : Disk :=
  ⟨here, [], (alongWay here).map fun way => (way.length, way)⟩

/-- The content of the file at the end of a way. -/
def fileAt (d : Disk) (way : List String) : Option Bytes := d.files.lookup way

/-- Whether there is a directory at the end of a way. -/
def hasDirectory (d : Disk) (way : List String) : Bool :=
  way.isEmpty || d.directories.contains (way.length, way)

/-- What lies at the end of a way into an existing directory. -/
def look (d : Disk) (way : List String) : Place :=
  match d.fileAt way with
  | some content => .file way content
  | none => if d.hasDirectory way then .directory way else .vacant way

/-- Takes one step of a path from a place.  An empty step or a dot stays in a directory, and two
dots leave it, except at the top. -/
def step (d : Disk) (place : Place) (s : String) : Except DiskError Place :=
  match place with
  | .file _ _ => .error .notADirectory
  | .vacant _ => .error .missing
  | .directory way =>
    if s = "" ∨ s = "." then .ok (.directory way)
    else if s = ".." then .ok (.directory way.dropLast)
    else if s.utf8ByteSize > 255 then .error .nameTooLong
    else .ok (d.look (way ++ [s]))

/-- The directory where a path starts. -/
def startOf (d : Disk) (path : String) : List String :=
  if Path.isAbsolute path then [] else d.here

/-- What is wrong with a path before anything is looked up: it has a NUL byte, it is empty, or it is
too long as a whole. -/
def pathError? (path : String) : Option DiskError :=
  if path.toList.contains '\x00' then some .notAName
  else if path.isEmpty then some .missing
  else if path.utf8ByteSize ≥ 4096 then some .nameTooLong
  else none

/-- Takes the given steps from where a path starts. -/
def followSteps (d : Disk) (path : String) (steps : List String) : Except DiskError Place :=
  match pathError? path with
  | some e => .error e
  | none => steps.foldlM d.step (.directory (d.startOf path))

/-- Follows a path. -/
def follow (d : Disk) (path : String) : Except DiskError Place :=
  d.followSteps path (Path.steps path)

/-- The content of a file. -/
def read (d : Disk) (path : String) : Except DiskError Bytes :=
  match d.follow path with
  | .error e => .error e
  | .ok (.file _ content) => .ok content
  | .ok (.directory _) => .error .isADirectory
  | .ok (.vacant _) => .error .missing

/-- Whether a path leads to a file. -/
def isFile (d : Disk) (path : String) : Bool := (d.read path).toBool

/-- The disk with a directory. -/
def addDirectory (d : Disk) (way : List String) : Disk :=
  if d.hasDirectory way then d
  else { d with directories := d.directories ++ [(way.length, way)] }

/-- The disk with another content of the file at the end of a way. -/
def put (d : Disk) (way : List String) (content : Bytes) : Disk :=
  if (d.fileAt way).isSome then
    { d with files := d.files.map fun f => if f.1 = way then (way, content) else f }
  else { d with files := d.files ++ [(way, content)] }

/-- Whether steps go on beyond the directory that they start from. -/
def goOn (steps : List String) : Bool := steps.any fun s => s ≠ "" && s ≠ "."

/-- Goes through the steps of a path and makes the directories that are not there yet; `made` tells
whether one was made before.  Nothing is made where only dots follow: they can only be taken from a
directory that is there.  A file in the way of other steps is no directory; but once something was
made, every step is made on its own, and then the file is found in the place of a directory. -/
def createAlong (d : Disk) (made : Bool) (way : List String) : List String → Except DiskError Disk
  | [] => .ok d
  | s :: rest =>
    match d.step (.directory way) s with
    | .error e => .error e
    | .ok (.directory next) => d.createAlong made next rest
    | .ok (.vacant next) =>
      if goOn rest || rest.all (·.isEmpty) then
        (d.addDirectory next).createAlong true next rest
      else .error .missing
    | .ok (.file _ _) =>
      .error (if made && goOn rest || rest.all (·.isEmpty) then .alreadyThere else .notADirectory)

/-- The disk in which a path leads to a directory.  The empty path leads to the present one. -/
def createDirectories (d : Disk) (path : String) : Except DiskError Disk :=
  if path.isEmpty then .ok d
  else
    match pathError? path with
    | some e => .error e
    | none => d.createAlong false (d.startOf path) (Path.steps path)

/-- The disk in which a path leads to a file with the given content.  A path that ends in a slash
can only lead to a directory, whatever its last name is, but the directory that this name stands in
has to be there all the same. -/
def write (d : Disk) (path : String) (content : Bytes) : Except DiskError Disk :=
  let named := Path.withoutLastSlashes path
  if named = path then
    match d.follow path with
    | .error e => .error e
    | .ok (.directory _) => .error .isADirectory
    | .ok (.file way _) | .ok (.vacant way) => .ok (d.put way content)
  else
    match d.followSteps path ((Path.steps named).dropLast ++ ["."]) with
    | .error e => .error e
    | .ok _ => .error .isADirectory

/-- The way that one step of a path leads to, without looking at what is there. -/
def wayAfter (way : List String) (s : String) : List String :=
  if s = "" ∨ s = "." then way else if s = ".." then way.dropLast else way ++ [s]

/-- The ways that a path leads along, without looking at what is there.  The last one is its end. -/
def waysAlong (d : Disk) (path : String) : List (List String) :=
  ((Path.steps path).foldl (fun ways s => ways ++ [wayAfter (ways.getLast?.getD []) s])
    [d.startOf path])

/-- The disk with a file and the directories that it lies in. -/
def addFile (d : Disk) (path : String) (content : Bytes) : Disk :=
  let ways := d.waysAlong path
  (ways.dropLast.foldl addDirectory d).put (ways.getLast?.getD []) content

/-- The disk with the given files and the present directory of the given way. -/
def ofFiles (here : List String) (files : List (String × Bytes)) : Disk :=
  files.foldl (fun d f => d.addFile f.1 f.2) (emptyAt here)

/-- The path from the present directory to the end of a way, if it lies below. -/
def pathBelow? (d : Disk) (way : List String) : Option String :=
  if d.here.isPrefixOf way then some (String.intercalate "/" (way.drop d.here.length)) else none

/-- The files that a later state of a disk has and that are not the same in this one. -/
def changedFiles (d later : Disk) : List (List String × Bytes) :=
  later.files.filter fun f => d.fileAt f.1 ≠ some f.2

/-- The directories that a later state of a disk has and this one lacks, outer ones first. -/
def newDirectories (d later : Disk) : List (List String) :=
  (later.directories.map (·.2)).filter fun way => !d.hasDirectory way

/-- The changed files below the present directory, known by their paths from there. -/
def changes (d later : Disk) : List (String × Bytes) :=
  (d.changedFiles later).filterMap fun f => (d.pathBelow? f.1).map fun path => (path, f.2)

end Disk

end Morphotactics
