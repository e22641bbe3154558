import ReplyLedger.Host.Basic
import ReplyLedger.Text.Blank

/-!
# Version control

The calls of the version-control program that tasks are committed and undone with. A call is made in
a given directory, or in the current one.
-/

namespace ReplyLedger.Git

open ReplyLedger.Action

/-- Call the program and return its status and its two outputs. -/
def run (arguments : List Text) (directory : Option Text) : Action (Int × Text × Text) := do
  let h ← get
  let call : GitCall := ⟨"git" :: arguments, directory⟩
  set { h with git := ⟨h.git.replies.tail, h.git.calls ++ [call]⟩ }
  match h.git.replies.headD (.ended 0 [] []) with
  | .ended status output errors => return (status, output, errors)
  | .missing => fail (.system .noEntry "git")

/-- Whether a failure says that the program is not installed. -/
def isMissing : Failure → Bool
  | .system .noEntry _ => true
  | _ => false

/-- Whether a directory is in a working tree. -/
def isRepository (directory : Option Text) : Action Bool :=
  rescue
    (do
      let (status, output, _) ← run ["rev-parse", "--is-inside-work-tree"] directory
      return status = 0 && Text.strip output = "true")
    isMissing fun _ => return false

/-- Whether the working tree has changes that are not committed. -/
def hasChanges (directory : Option Text) : Action Bool := do
  let (_, output, _) ← run ["status", "--porcelain"] directory
  return Text.strip output ≠ []

/-- Commit all changes of the working tree; whether both steps of it succeed. -/
def commitAll (directory : Option Text) (message : Text) : Action Bool := do
  let (status, _, errors) ← run ["add", "-A"] directory
  if status ≠ 0 then
    say .warn ("git add failed: " ++ Text.strip errors)
    return false
  else
    let (status, output, errors) ← run ["commit", "-m", message] directory
    if status ≠ 0 then
      say .warn ("git commit failed: " ++ Text.strip (if errors = [] then output else errors))
      return false
    else return true

/-- Discard all changes of the working tree; whether that succeeds. -/
def discardChanges (directory : Option Text) : Action Bool := do
  let (status, _, errors) ← run ["reset", "--hard", "HEAD"] directory
  if status ≠ 0 then
    say .warn ("git reset failed: " ++ Text.strip errors)
    return false
  else return true

/-- The subject of the last commit, or nothing. -/
def lastSubject (directory : Option Text) : Action Text := do
  let (status, output, _) ← run ["log", "-1", "--pretty=%s"] directory
  return if status = 0 then Text.strip output else []

/-- The directory as a message shows it. -/
def shownDirectory (directory : Option Text) : Text := directory.getD "None"

/-- Do `act` if the directory is in a working tree; otherwise warn. -/
def inRepository (directory : Option Text) (act : Action Bool) : Action Bool := do
  if ← isRepository directory then act
  else
    say .warn ("Not a git repository: " ++ shownDirectory directory)
    return false

end ReplyLedger.Git
