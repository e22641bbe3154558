import ReplyLedger.Workspace

/-!
# Settings

What the user can set, and the places that follow from it: the workspace, and the state directory
with the task records, the journal and the pointer to the current task. A state directory that is
not absolute is one below the workspace. Each place is worked out anew when it is asked for.
-/

namespace ReplyLedger

/-- What the user can set. -/
structure Settings where
  /-- The workspace; empty for that of the current working tree. -/
  workspace : Text
  stateDirectory : Text
  recentLimit : Int := 10
  verbose : Bool := false
  deriving DecidableEq, Repr

namespace Settings

/-- The state directory when nothing says otherwise. -/
def defaultStateDirectory : Text := ".llmdiff"

/-- The state directory: the one that is set, or the one of the environment, or the default. -/
def stateDirectoryFrom (given environment : Text) : Text :=
  if given ≠ [] then given
  else if environment ≠ [] then environment
  else defaultStateDirectory

variable (s : Settings)

/-- The workspace. -/
def root : Action Workspace := Workspace.ofText s.workspace

/-- The state directory. -/
def statePath : Action FilePath := do
  let p ← Workspace.expandHome (FilePath.ofText s.stateDirectory)
  if p.isAbsolute then return p
  else
    let w ← s.root
    return (FilePath.ofNames w.root).join p

/-- The directory of the task records. -/
def tasksDirectory : Action FilePath := return (← s.statePath).child "tasks"

/-- The file of the journal. -/
def journalPath : Action FilePath := return (← s.statePath).child "output.log"

/-- The file that points to the current task. -/
def pointerPath : Action FilePath := return (← s.statePath).child "current"

end Settings

end ReplyLedger
