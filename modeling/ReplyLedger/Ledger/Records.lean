import ReplyLedger.Json.Printer
import ReplyLedger.Ledger.Basic

/-!
# The records of a ledger

Saving and loading the tasks of a ledger. A record is a JSON document in a file named for the task's
id. `recent` lists the tasks whose records can be read, newest first.
-/

namespace ReplyLedger.Ledger

open ReplyLedger.Action Json

/-- The ending of the names of record files. -/
def recordEnding : Text := ".json"

/-- The file of the record of a task. -/
def recordPath (l : Ledger) (id : Text) : FilePath :=
  l.tasksDirectory.join (FilePath.ofText (id ++ recordEnding))

/-- Write the record of a task. -/
def save (l : Ledger) (t : Task) : Action Unit :=
  writeText (l.recordPath t.id).text t.toRecord.document

/-- The task of a text. -/
def parseTask (text : Text) : Except Failure Task :=
  match Value.ofDocument text with
  | .error fault => .error (.document text fault)
  | .ok v =>
    match Task.ofRecord v with
    | .error fault => .error (.record fault)
    | .ok t => .ok t

/-- The task of a record file. -/
def load (path : FilePath) : Action Task := do
  match parseTask (← readText path.text) with
  | .ok t => return t
  | .error f => fail f

/-- The task of a record file, or a warning if the record cannot be read. -/
def load? (path : FilePath) : Action (Option Task) :=
  rescue (some <$> load path) Failure.isUnreadable fun f => do
    say .warn ("Skipping unreadable task record " ++ path.name ++ ": " ++ f.message)
    return none

/-- The tasks, newest first. -/
def newestFirst (tasks : List Task) : List Task := tasks.mergeSort fun t u => !u.isNewer t

/-- The first `limit` of the tasks, or all of them if `limit` is not positive. -/
def upTo (limit : Int) (tasks : List Task) : List Task :=
  if 0 < limit then tasks.take limit.toNat else tasks

/-- The tasks whose records can be read, newest first, at most `limit` if that is positive. -/
def recent (l : Ledger) (limit : Int) : Action (List Task) := do
  let names ← namesEndingIn recordEnding l.tasksDirectory.text
  let tasks ← names.filterMapM fun name => load? (l.tasksDirectory.child name)
  return upTo limit (newestFirst tasks)

/-- The task with an id. -/
def find (l : Ledger) (id : Text) : Action Task := do
  let path := l.recordPath id
  if ← isFile path.text then load path else fail (.unknownTask id)

/-- Whether a task has a name. -/
def isNamed (name : Text) (t : Task) : Bool := t.name.same (.text name)

/-- The newest task with a name. -/
def findByName (l : Ledger) (name : Text) : Action (Option Task) := do
  return (← l.recent 0).find? (isNamed name)

/-- Set the pointer to a task, or remove it. -/
def point (l : Ledger) (target : Option Task) : Action Unit := do
  match l.pointer, target with
  | none, _ => return ()
  | some path, none => removeIfThere path.text
  | some path, some t => do
    ensureDirectories path.parent
    writeText path.text (t.id ++ ['\n'])

/-- The task that the pointer names. A pointer to a task that is not there is removed. -/
def restore (l : Ledger) : Action (Option Task) := do
  match l.pointer with
  | none => return none
  | some path =>
    if ← isFile path.text then
      let id := Text.strip (← readText path.text)
      let isUnknown : Failure → Bool
        | .unknownTask _ => true
        | _ => false
      rescue (some <$> l.find id) isUnknown fun _ => do
        say .warn ("Current task " ++ id ++ " no longer exists; clearing it")
        removeIfThere path.text
        return none
    else return none

/-- The ledger in a directory, with the task that its pointer names for the current one. -/
def openIn (tasksDirectory : FilePath) (vcs : Vcs) (pointer : Option FilePath) : Action Ledger := do
  let l : Ledger := { tasksDirectory, pointer, vcs }
  ensureDirectories tasksDirectory
  return { l with current := ← l.restore }

end ReplyLedger.Ledger
