import Morphotactics.CommandLine.Arguments
import Morphotactics.Notice

/-!
# Outcomes of commands

How a command ends, what it tells meanwhile, and the disk that it leaves.
-/

namespace Morphotactics.CommandLine

/-- Why a command fails, and the reason behind it if there is one. -/
structure Failure where
  message : String
  cause : Option String
deriving DecidableEq, Repr

/-- How a command ends. -/
inductive Ending where
  | done
  | usage (usage : Usage)
  | failed (failure : Failure)
deriving DecidableEq, Repr

/-- The exit code of an ending. -/
def Ending.exitCode : Ending → Nat
  | done => 0
  | usage .information => 0
  | usage .wrong => 1
  | failed _ => 1

/-- What becomes of a command. -/
structure Outcome where
  ending : Ending
  notices : List Notice
  disk : Disk

end Morphotactics.CommandLine
