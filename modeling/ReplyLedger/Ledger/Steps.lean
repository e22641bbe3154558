import ReplyLedger.Ledger.Records

/-!
# The steps of a ledger

A task is started, or taken up again, by its name; operations are recorded on it; and what it has
done to the working tree is committed or undone. The status says which steps are open:

* recording operations makes a task applied, whatever it was before;
* only an applied task can be committed, and it is committed after that;
* only an applied task can be undone, if the user agrees, and it is undone after that.

Every step changes the task in memory first and then writes its record.
-/

namespace ReplyLedger.Ledger

open LedgerAction Json

/-- Make a task the current one, or none. -/
def setCurrent (target : Option Task) : LedgerAction Unit := do
  update fun l => { l with current := target }
  (← ledger).point target

/-- Change the current task to `t` and write its record. -/
def saveCurrent (t : Task) : LedgerAction Unit := do
  update fun l => { l with current := some t }
  (← ledger).save t

/-- The time of creation of a new task: the time of the moment, or just after the newest of the
known tasks if that is not earlier. -/
def creationTime (known : List Task) (now : Timestamp) : Except Failure Timestamp :=
  match known with
  | [] => .ok now
  | newest :: _ =>
    if now.instant ≤ newest.created.instant then
      match newest.created.next? with
      | some t => .ok t
      | none => .error .calendarEnd
    else .ok now

/-- Make the task with a name the current one. If there is none, it is created; if there is one
without a description, it gets the one that is given. -/
def start (name : Text) (description : Value) : LedgerAction Task := do
  if Text.strip name = [] then fail .blankTaskName
  let l := (← ledger)
  let known ← l.recent 0
  match known.find? (isNamed name) with
  | some t =>
    let gains := !description.isEmpty && t.description.isEmpty
    let t := if gains then { t with description } else t
    if gains then l.save t
    Action.say .debug ("Reusing task " ++ t.id ++ " (" ++ name ++ ")")
    setCurrent t
    return t
  | none =>
    let id ← Action.newId
    let now ← Action.now
    let created ←
      match creationTime known now with
      | .ok created => pure created
      | .error f => fail f
    let t : Task :=
      { id, created
        name := .text name
        description := if description.isEmpty then .text [] else description
        operations := []
        status := .pending
        affected := []
        included := [] }
    l.save t
    setCurrent t
    Action.say .debug ("Created task " ++ t.id ++ " (" ++ name ++ ")")
    return t

/-- Make the task with an id the current one. -/
def switch (id : Text) : LedgerAction Task := do
  let t ← (← ledger).find id
  setCurrent t
  return t

/-- Have no current task. -/
def endCurrent : LedgerAction Unit := setCurrent none

/-! ## Context files -/

/-- Whether a value is a list or an object. -/
def isCompound : Value → Bool
  | .list _ | .object _ => true
  | _ => false

/-- Those of the paths that are not in the context of the current task. Lists and objects cannot be
looked up. -/
def newFiles (paths : List Value) : LedgerAction (List Value) := do
  match ← currentTask with
  | none => return paths
  | some t =>
    if t.included.any isCompound || paths.any isCompound then fail .wrongType
    else return paths.filter fun p => !p.isAmong t.included

/-- Add files to the context of the current task, and return those that are new. -/
def addFiles (paths : List Value) : LedgerAction (List Value) := do
  let t ← needCurrent
  let added := Task.additions t.included paths
  if !added.isEmpty then saveCurrent { t with included := t.included ++ added }
  return added

/-- Take all files out of the context of the current task. -/
def clearFiles : LedgerAction Unit := do
  let t ← needCurrent
  saveCurrent { t with included := [] }

/-! ## Operations -/

/-- Record operations on the current task. -/
def recordOnCurrent (ops : List (Operation Value)) : LedgerAction Task := do
  let t ← needCurrent
  if ops.isEmpty then return t
  else
    let t := t.record ops
    saveCurrent t
    return t

/-- Record operations on a task that was loaded apart from the current one. -/
def recordOn (t : Task) (ops : List (Operation Value)) : LedgerAction Task := do
  if ops.isEmpty then return t
  else
    let t := t.record ops
    (← ledger).save t
    return t

/-! ## Commit and undo -/

/-- Ask a runner that only notes. -/
def answerOf (call : VcsCall) : LedgerAction Bool := do
  match (← ledger).vcs with
  | .noting answers calls =>
    update fun l => { l with vcs := .noting answers.tail (calls ++ [call]) }
    return answers.headD true
  | .git _ => return false

/-- Commit the working tree. -/
def commitTree (message : Text) : LedgerAction Bool := do
  match (← ledger).vcs with
  | .git directory => Git.inRepository directory (Git.commitAll directory message)
  | .noting _ _ => answerOf (.commit message)

/-- Discard the changes of the working tree. -/
def resetTree : LedgerAction Bool := do
  match (← ledger).vcs with
  | .git directory => Git.inRepository directory (Git.discardChanges directory)
  | .noting _ _ => answerOf .reset

/-- The current task, which has to be applied. -/
def needApplied (action : VcsAction) : LedgerAction Task := do
  let t ← needCurrent
  if t.status = .applied then return t
  else fail (.wrongStatus action t.name.plain t.status)

/-- The message of the commit for a task. -/
def commitMessage (t : Task) : Text := "Task: " ++ t.name.plain

/-- Commit the working tree for the current task. -/
def commit : LedgerAction Task := do
  let t ← needApplied .commit
  if ← commitTree (commitMessage t) then
    let t := { t with status := .committed }
    saveCurrent t
    return t
  else fail (.vcsFailed .commit t.name.plain)

/-- The question before the changes of a task are discarded. -/
def undoQuestion (t : Task) : Text :=
  "Discard ALL working-tree changes for task '" ++ t.name.plain ++ "'? (git reset --hard HEAD)"

/-- Discard the changes of the working tree for the current task, if the user agrees; whether that
was done. -/
def undo (confirm : Confirm) : LedgerAction Bool := do
  let t ← needApplied .undo
  if ← Action.ask confirm (undoQuestion t) then
    if ← resetTree then
      saveCurrent { t with status := .undone }
      return true
    else fail (.vcsFailed .undo t.name.plain)
  else return false

/-- The current task in one line. -/
def summary : LedgerAction Text := do
  match ← currentTask with
  | some t => return t.summary
  | none => return "No active task"

end ReplyLedger.Ledger
