import ReplyLedger.CommandLine.Invocation
import ReplyLedger.CommandLine.Prompt
import ReplyLedger.Ledger.Reply
import ReplyLedger.Settings

/-!
# The program

What each command does. A command opens the workspace and its ledger, works on them, and shows what
it has done. A failure that belongs to the work is shown as an error and ends the run with status 1,
and so does the end of the input in the middle of a question; a command line that makes no sense
ends it with status 2. Other failures are not the program's to report.

The commands are those of a `Terminal`, which puts their questions to the user in its own way; `run`
is on the one of the program by itself.
-/

namespace ReplyLedger.CommandLine

open LedgerAction Json

/-- The version of the program. -/
def versionLine : Text := "llmdiff, version 0.3.0"

/-- What keeps a command from going on. -/
inductive Stop
  | failure (f : Failure)
  /-- The command line makes no sense: a file that it names is not there. -/
  | usage

/-- How a run has ended. -/
inductive Ending
  | exited (status : Nat)
  /-- The command line makes no sense. -/
  | misused
  /-- A failure that is not the program's to report. -/
  | crashed (f : Failure)

/-- A step of a command. -/
abbrev Step (σ : Type) := ExceptT Stop (StateM σ)

/-- An action as a step. -/
def ofAction {α : Type} (act : Action α) : Step Host α := fun host =>
  let (result, host) := act host
  (result.mapError .failure, host)

/-- A step on the host as one on the desk. -/
def onHost {α : Type} (step : Step Host α) : Step Desk α := fun desk =>
  let (result, host) := step desk.host
  (result, { desk with host })

/-- A step of the ledger as a step of a command. -/
def ofLedger {α : Type} (act : LedgerAction α) : Step Desk α := fun desk =>
  let (result, desk) := act desk
  (result.mapError .failure, desk)

/-- Show a line. -/
def line (text : Text) : Step Desk Unit := ofLedger (Action.emit (.line text))

/-- Show a message. -/
def say (level : Level) (text : Text) : Step Desk Unit := ofLedger (Action.say level text)

/-- The text of a source: a file, or the whole input. -/
def readSource (source : Text) : Step Host Text := do
  if source = inputSource then
    let h ← get
    set { h with console := { h.console with input := [] } }
    return Text.unifyLineEnds h.console.input
  else
    let path := (FilePath.ofText source).text
    if ← ofAction (Action.isFile path) then ofAction (Action.readText path)
    else throw .usage

/-- What commands are run on. -/
structure Terminal where
  /-- Puts a question to the user. -/
  prompt : Confirm
  /-- How deep the machine can nest calls; without it, as deep as they go. -/
  nesting : Option Nat := none

/-- Answers to questions: yes to all of them, or the user's. -/
def Terminal.confirmation (terminal : Terminal) (yes : Bool) : Confirm :=
  if yes then fun _ => return some true else terminal.prompt

/-- The question before a file is overwritten. -/
def overwriteQuestion (path : Text) : Text := "File " ++ path ++ " already exists. Overwrite?"

/-- What a command works on. -/
structure App where
  terminal : Terminal
  settings : Settings
  workspace : Workspace

namespace App

variable (app : App)

/-- The workspace as the version-control program's directory. -/
def directory : Option Text := some app.workspace.text

/-- Start a task, or take it up again. -/
def startTask (name : Text) (description : Option Text) : Step Desk Unit := do
  let given : Value :=
    match description with
    | some d => .text d
    | none => .null
  let t ← ofLedger (Ledger.start name given)
  let suffix : Text := if t.description.isEmpty then [] else " (" ++ t.description.plain ++ ")"
  say .success ("Active task: " ++ t.name.plain ++ " [" ++ t.id ++ "]" ++ suffix)

/-- A task in a list; the current one is marked. -/
def taskLine (current : Option Task) (t : Task) : Text :=
  let marker : Text := if (current.map Task.id) = some t.id then "*" else " "
  marker ++ " " ++ t.id ++ "  " ++ t.created.writeBrief ++ "  [" ++ t.status.word ++ "]  " ++
    t.name.plain

/-- List the recent tasks. -/
def listTasks (limit : Option Int) : Step Desk Unit := do
  let tasks ← ofLedger do (← ledger).recent (limit.getD app.settings.recentLimit)
  if tasks.isEmpty then say .info "No tasks yet"
  else
    let current ← ofLedger currentTask
    tasks.forM fun t => line (taskLine current t)

/-- Make another task the current one. -/
def switchTask (id : Text) : Step Desk Unit := do
  let t ← ofLedger (Ledger.switch id)
  say .success ("Active task: " ++ t.name.plain ++ " [" ++ t.id ++ "]")

/-- Have no current task. -/
def endTask : Step Desk Unit := do
  ofLedger Ledger.endCurrent
  say .success "Task ended"

/-- Show the current task, and whether there are changes that are not committed. -/
def status : Step Desk Unit := do
  line (← ofLedger Ledger.summary)
  match ← ofLedger currentTask with
  | some t =>
    if !t.affected.isEmpty then
      line "Affected files:"
      t.affected.forM fun p => line ("  - " ++ p.plain)
  | none => pure ()
  let changed ← ofLedger do
    if ← Git.isRepository app.directory then Git.hasChanges app.directory else return false
  if changed then say .info "Working tree has uncommitted changes"

/-- Add files to the context of the current task. -/
def add (paths : List Text) : Step Desk Unit := do
  let added ← ofLedger (Ledger.includeFiles app.workspace paths)
  if added.isEmpty then say .info "No new files to add (already in context)"
  else
    added.forM fun p => line ("  + " ++ p.plain)
    say .success ("Added " ++ Text.ofNat added.length ++ " file(s) to context")

/-- Carry out a reply. -/
def apply (source : Text) (yes : Bool) : Step Desk Unit := do
  let text ← onHost (readSource source)
  let journal : Journal := ⟨← ofLedger app.settings.journalPath⟩
  let workspace ← ofLedger (Workspace.ofPath (some (FilePath.ofNames app.workspace.root)))
  let confirm : Confirm := fun path => app.terminal.confirmation yes (overwriteQuestion path)
  let nesting := app.terminal.nesting
  say .info "Applying operations…"
  let r ← ofLedger (Ledger.applyReply { workspace, confirm, journal, nesting } text)
  if r.operations.isEmpty then say .warn "No operation blocks found"
  else
    r.report.failures.forM fun f => say .warn (f.operation.kind.word ++ ": " ++ f.reason)
    if r.report.failures.isEmpty then
      say .success ("Applied " ++ Text.ofNat r.report.applied.length ++ " operation(s)")
    else
      let journalPath ← ofLedger app.settings.journalPath
      say .warn (r.report.summary ++ ": " ++ journalPath.text)

/-- Commit the working tree for the current task. -/
def commit : Step Desk Unit := do
  let t ← ofLedger Ledger.commit
  say .success ("Task '" ++ t.name.plain ++ "' committed")

/-- Discard the changes of the working tree for the current task. -/
def undo (yes : Bool) : Step Desk Unit := do
  if ← ofLedger (Ledger.undo (app.terminal.confirmation yes)) then
    let t ← ofLedger needCurrent
    say .success ("Task '" ++ t.name.plain ++ "' undone")
  else say .info "Undo cancelled"

/-- Run a command. -/
def run : Command → Step Desk Unit
  | .startTask name description => startTask name description
  | .listTasks limit => app.listTasks limit
  | .switchTask id => switchTask id
  | .endTask => endTask
  | .status => app.status
  | .add paths => app.add paths
  | .parse _ => return ()
  | .apply source yes => app.apply source yes
  | .commit => commit
  | .undo yes => app.undo yes

end App

/-- The workspace and the ledger that the settings name. -/
def openDesk (terminal : Terminal) (settings : Settings) : Action (App × Ledger) := do
  let workspace ← settings.root
  let tasksDirectory ← settings.tasksDirectory
  let pointer ← settings.pointerPath
  let l ← Ledger.openIn tasksDirectory (.git (some workspace.text)) (some pointer)
  return (⟨terminal, settings, workspace⟩, l)

/-- Show the operations of a reply without carrying them out. -/
def showOperations (source : Text) : Step Host Unit := do
  let ops ← ofAction (Ledger.readReply (← readSource source))
  if ops.isEmpty then ofAction (Action.say .warn "No operation blocks found")
  else
    ofAction ((ops.zipIdx 1).forM fun (op, i) =>
      Action.emit (.line (Text.padLeft 3 (Text.ofNat i) ++ ". " ++
        Text.padRight 15 op.kind.word ++ " " ++ op.label Value.plain)))

/-- Refuse paths that do not name files. -/
def checkPaths (paths : List Text) : Step Host Unit :=
  paths.forM fun path => do
    if FileSystem.hasNul path then throw (.failure .badName)
    let h ← get
    match h.files.status h.cwd path with
    | .ok (.file _) => return ()
    | _ => throw .usage

/-- Run a command on the host. -/
def runCommand (terminal : Terminal) (settings : Settings) (command : Command) :
    Step Host Unit := do
  match command with
  | .parse source => showOperations source
  | command =>
    if let .add paths := command then checkPaths paths
    let (app, ledger) ← ofAction (openDesk terminal settings)
    let host ← get
    let (result, desk) := app.run command ⟨host, ledger⟩
    set desk.host
    ofExcept result

/-- How a command that was stopped ends, and what it shows of that. -/
def endOf (stop : Stop) : StateM Host Ending := do
  match stop with
  | .usage => return .misused
  | .failure .interrupted =>
    modify fun h => { h with console := h.console.emit .aborted }
    return .exited 1
  | .failure f =>
    if f.isExpected then
      modify fun h => { h with console := h.console.emit (.message .error f.message) }
      return .exited 1
    else return .crashed f

/-- Run a command line on a terminal. The state directory of the environment is empty if there is
none. -/
def runOn (terminal : Terminal) (environment : Text) (words : List Text) : StateM Host Ending := do
  match Invocation.ofWords? words with
  | none => return .misused
  | some .version =>
    modify fun h => { h with console := h.console.emit (.line versionLine) }
    return .exited 0
  | some (.run workspace verbose command) =>
    let settings : Settings :=
      { workspace, verbose, stateDirectory := Settings.stateDirectoryFrom [] environment }
    match ← (runCommand terminal settings command).run with
    | .ok () => return .exited 0
    | .error stop => endOf stop

/-- Run a command line on a terminal that reads answers from the input. -/
def run (environment : Text) (words : List Text) : StateM Host Ending :=
  runOn { prompt := Confirm.fromInput } environment words

/-- Whether a command line asks for details. -/
def isVerbose (words : List Text) : Bool :=
  match Invocation.ofWords? words with
  | some (.run _ verbose _) => verbose
  | _ => false

end ReplyLedger.CommandLine
