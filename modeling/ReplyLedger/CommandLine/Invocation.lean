import ReplyLedger.CommandLine.Options
import ReplyLedger.CommandLine.WholeNumber

/-!
# Invocations

What the user asks for on the command line: a command with its arguments, and the options that hold
for every command. `Invocation.ofWords?` reads the words of a command line; words that ask for
nothing sensible, or for help, are no invocation.
-/

namespace ReplyLedger.CommandLine

/-- What is to be done. -/
inductive Command
  | startTask (name : Text) (description : Option Text)
  | listTasks (limit : Option Int)
  | switchTask (id : Text)
  | endTask
  | status
  | add (paths : List Text)
  | parse (source : Text)
  | apply (source : Text) (yes : Bool)
  | commit
  | undo (yes : Bool)
  deriving DecidableEq, Repr

/-- A command line that is understood. -/
inductive Invocation
  /-- Show the version. -/
  | version
  /-- Run a command in a workspace, with details shown if `verbose`. -/
  | run (workspace : Text) (verbose : Bool) (command : Command)
  deriving DecidableEq, Repr

/-- The source that stands for the input. -/
def inputSource : Text := ['-']

/-- The option that answers every question with yes. -/
def yesOption : OptionSpec := ⟨"yes", some 'y', false⟩

/-- The option for the description of a task. -/
def descriptionOption : OptionSpec := ⟨"description", some 'd', true⟩

/-- The option for the length of a list. -/
def limitOption : OptionSpec := ⟨"limit", some 'n', true⟩

/-- The option for the workspace. -/
def rootOption : OptionSpec := ⟨"root", none, true⟩

/-- The option that shows details. -/
def verboseOption : OptionSpec := ⟨"verbose", some 'v', false⟩

/-- The option that shows the version. -/
def versionOption : OptionSpec := ⟨"version", none, false⟩

/-- Read the options and arguments of a command, and make it of them; help asked for makes none. -/
def readCommand? (specs : List OptionSpec) (words : List Text)
    (make : List Given → List Text → Option Command) : Option Command := do
  let (given, arguments) ← read specs words
  if isGiven helpOption.name given then none else make given arguments

/-- The source among the arguments: at most one, or else the input. -/
def source? : List Text → Option Text
  | [] => some inputSource
  | [source] => some source
  | _ => none

namespace Command

/-- A command of the group for tasks. -/
def ofTaskWords? (words : List Text) : Option Command := do
  let (given, rest) ← readLeading [] words
  if isGiven helpOption.name given then none
  else
    match rest with
    | [] => none
    | name :: words =>
      if name = "start" then
        readCommand? [descriptionOption] words fun given arguments =>
          match arguments with
          | [name] => some (startTask name (valueOf? descriptionOption.name given))
          | _ => none
      else if name = "list" then
        readCommand? [limitOption] words fun given arguments =>
          match arguments, valueOf? limitOption.name given with
          | [], none => some (listTasks none)
          | [], some limit => (wholeNumber? limit).map fun n => listTasks (some n)
          | _, _ => none
      else if name = "switch" then
        readCommand? [] words fun _ arguments =>
          match arguments with
          | [id] => some (switchTask id)
          | _ => none
      else if name = "end" then
        readCommand? [] words fun _ arguments => if arguments.isEmpty then some endTask else none
      else none

/-- A command from its name on. -/
def ofWords? : List Text → Option Command
  | [] => none
  | name :: words =>
    if name = "task" then ofTaskWords? words
    else if name = "status" then
      readCommand? [] words fun _ arguments => if arguments.isEmpty then some status else none
    else if name = "add" then
      readCommand? [] words fun _ arguments =>
        if arguments.isEmpty then none else some (add arguments)
    else if name = "parse" then
      readCommand? [] words fun _ arguments => (source? arguments).map parse
    else if name = "apply" then
      readCommand? [yesOption] words fun given arguments =>
        (source? arguments).map fun source => apply source (isGiven yesOption.name given)
    else if name = "commit" then
      readCommand? [] words fun _ arguments => if arguments.isEmpty then some commit else none
    else if name = "undo" then
      readCommand? [yesOption] words fun given arguments =>
        if arguments.isEmpty then some (undo (isGiven yesOption.name given)) else none
    else none

end Command

/-- The invocation of a command line. Of help and version the first one counts. -/
def Invocation.ofWords? (words : List Text) : Option Invocation := do
  let (given, rest) ← readLeading [rootOption, verboseOption, versionOption] words
  let first := given.find? fun g => g.name == helpOption.name || g.name == versionOption.name
  match first with
  | some g => if g.name = versionOption.name then return .version else none
  | none =>
    let command ← Command.ofWords? rest
    let workspace := (valueOf? rootOption.name given).getD []
    return .run workspace (isGiven verboseOption.name given) command

end ReplyLedger.CommandLine
