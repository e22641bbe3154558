import ReplyLedger.Git.Commands
import ReplyLedger.Host.Files
import ReplyLedger.Task.Record

/-!
# Ledgers

A ledger keeps one record a task in a directory, and remembers the current task in memory and,
if it has one, in a pointer file that holds the task's id. Commits and resets go through a
version-control runner.

A `LedgerAction` is a step of a run that may change the ledger as well as the host.
-/

namespace ReplyLedger

/-- What a version-control runner has been asked to do. -/
inductive VcsCall
  | commit (message : Text)
  | reset
  deriving DecidableEq, Repr

/-- What commits and resets are made with. -/
inductive Vcs
  /-- The version-control program, in a directory. -/
  | git (directory : Option Text)
  /-- A runner that only notes what it is asked, and answers in turn, with success in the end. -/
  | noting (answers : List Bool) (calls : List VcsCall)
  deriving DecidableEq, Repr

/-- A ledger. -/
structure Ledger where
  tasksDirectory : FilePath
  /-- Where the id of the current task is kept, if anywhere. -/
  pointer : Option FilePath
  vcs : Vcs
  current : Option Task := none

/-- A ledger and the host on which it is kept. -/
structure Desk where
  host : Host
  ledger : Ledger

/-- A step of a run with a ledger. -/
abbrev LedgerAction := ExceptT Failure (StateM Desk)

namespace LedgerAction

/-- An action as a step that leaves the ledger alone. -/
def ofAction {α : Type} (act : Action α) : LedgerAction α := fun desk =>
  let (result, host) := act desk.host
  (result, { desk with host })

instance : MonadLift Action LedgerAction := ⟨ofAction⟩

/-- Fail. -/
def fail {α : Type} (f : Failure) : LedgerAction α := throw f

/-- Change the ledger. -/
def update (f : Ledger → Ledger) : LedgerAction Unit :=
  modifyThe Desk fun desk => { desk with ledger := f desk.ledger }

/-- The ledger as it is. -/
def ledger : LedgerAction Ledger := return (← getThe Desk).ledger

/-- The current task in memory. -/
def currentTask : LedgerAction (Option Task) := return (← ledger).current

/-- The current task, which there has to be. -/
def needCurrent : LedgerAction Task := do
  match ← currentTask with
  | some t => return t
  | none => fail .noActiveTask

end LedgerAction

end ReplyLedger
