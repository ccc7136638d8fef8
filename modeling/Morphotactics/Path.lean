import Morphotactics.Text.Pieces

/-!
# File paths

Paths as texts, with steps set off by slashes.  Nothing here looks at files: paths are put together
and taken apart as they are written.
-/

namespace Morphotactics.Path

/-- Whether a path starts from the top of all directories. -/
def isAbsolute (path : String) : Bool := path.toList.head? = some '/'

/-- One path below another one.  An absolute path stands for itself wherever it is put. -/
def join (dir path : String) : String :=
  if isAbsolute path || dir.isEmpty then path
  else if dir.toList.getLast? = some '/' then dir ++ path
  else dir ++ "/" ++ path

/-- A path without the slashes at its end. -/
def withoutLastSlashes (path : String) : String :=
  String.ofList (path.toList.reverse.dropWhile (· = '/')).reverse

/-- The steps of a path. -/
def steps (path : String) : List String := Text.pieces '/' path

/-- The last step of a path that says where to go, if it names something. -/
def fileName? (path : String) : Option String :=
  match ((steps path).filter fun s => s ≠ "" ∧ s ≠ ".").getLast? with
  | some ".." => none
  | last => last

/-- The absolute path with the given steps. -/
def ofSteps (steps : List String) : String := "/" ++ String.intercalate "/" steps

end Morphotactics.Path
