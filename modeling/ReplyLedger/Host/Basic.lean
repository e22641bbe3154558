import ReplyLedger.Console
import ReplyLedger.Failure
import ReplyLedger.FilePath

/-!
# The host

Everything outside the program that a run can read or change: the files, the current directory and
the home directory, the console, the version-control program, the sources of ids and times. An
`Action` is a step of a run: it may change the host, and keeps what it has changed when it fails.

## What is left out

* There are no permissions, no second names of a file and no full disk: what is there can be read,
  changed and removed, a file has one place, and there is room for every write.
* The length of a name is heeded everywhere (`FileSystem.isTooLong`), that of a whole path only in
  copies, which may grow without end (`FileSystem.isLongPath`).
* Calls nest as deep as they go, but for those whose number the input decides: the directories that
  are made above a target, and those that are copied (`Applier.nesting`).
* A text is a sequence of characters. Half of a pair that stands alone is no character, and is read
  as U+FFFD (`Json.charOfCode`).
* The console takes every text that is shown, and the version-control program whatever it is called
  with; what it writes is text.
* Nothing else changes the host while a run goes on.
-/

namespace ReplyLedger

/-- What the version-control program answers to a call. -/
inductive GitReply
  /-- It ends with a status and what it wrote to its two outputs. -/
  | ended (status : Int) (output errors : Text)
  /-- It is not installed. -/
  | missing
  deriving DecidableEq, Repr

/-- A call of the version-control program: its arguments, and the directory that it runs in, if one
is given. -/
structure GitCall where
  arguments : List Text
  directory : Option Text
  deriving DecidableEq, Repr

/-- The version-control program: the answers it is going to give, and the calls made so far. -/
structure Git where
  replies : List GitReply := []
  calls : List GitCall := []
  deriving DecidableEq, Repr

/-- The source of new ids. -/
structure IdSource where
  /-- Ids to hand out first. -/
  given : List Text := []
  /-- How many ids have been made up since the given ones were used up. -/
  madeUp : Nat := 0
  deriving DecidableEq, Repr

/-- Everything outside the program. -/
structure Host where
  files : FileSystem
  cwd : CurrentDirectory
  home : Text
  /-- The home directories of other users that are known. -/
  users : List (Text × Text) := []
  console : Console := {}
  git : Git := {}
  ids : IdSource := {}
  /-- The times at which tasks will be created; the last one stays. -/
  clock : List Timestamp
  /-- The times of the entries to come in the journal. -/
  journalClock : List Timestamp := []
  /-- The time of the entries after those. -/
  journalTime : Timestamp

/-- A host on which nothing has happened yet, with its files, seen from the root. -/
def Host.ofFiles (files : FileSystem) : Host where
  files := files
  cwd := .present []
  home := ['/']
  clock := []
  journalTime := .newYear 2024 (by decide)

/-- The host after a displacement of its files; the current directory goes along. -/
def Host.displace (h : Host) (d : Displacement) : Host :=
  { h with files := h.files.displace d, cwd := h.cwd.displace d }

/-- A step of a run. -/
abbrev Action := ExceptT Failure (StateM Host)

namespace Action

/-- Fail. -/
def fail {α : Type} (f : Failure) : Action α := throw f

/-- Show something. -/
def emit (e : Event) : Action Unit :=
  modify fun h => { h with console := h.console.emit e }

/-- Show a message. -/
def say (level : Level) (text : Text) : Action Unit := emit (.message level text)

/-- Ask a question. -/
def ask (confirm : Confirm) (question : Text) : Action Bool := do
  let h ← get
  let (answer, console) := confirm question h.console
  set { h with console }
  match answer with
  | some answer => return answer
  | none => fail .interrupted

/-- Do `handler` with the failure of an action, if `catches` says so. -/
def rescue {α : Type} (act : Action α) (catches : Failure → Bool) (handler : Failure → Action α) :
    Action α :=
  tryCatch act fun f => if catches f then handler f else throw f

/-- The result of a call of the operating system about a path. -/
def ofCall {α : Type} (path : Text) : Except Errno α → Action α
  | .ok a => return a
  | .error e => fail (.system e path)

/-- Make a call about a path, which must hold no NUL character. -/
def call {α : Type} (path : Text) (f : FileSystem → CurrentDirectory → Except Errno α) :
    Action α := do
  if FileSystem.hasNul path then fail .badName
  else
    let h ← get
    ofCall path (f h.files h.cwd)

/-- Make a call that changes the files. -/
def change (path : Text) (f : FileSystem → CurrentDirectory → Except Errno FileSystem) :
    Action Unit := do
  let files ← call path f
  modify fun h => { h with files }

/-- The location of the current directory. -/
def currentLocation : Action Location := do
  match (← get).cwd with
  | .present p => return p
  | .removed _ _ => fail .noCurrentDirectory

/-! ## Ids and times -/

/-- The number of characters of a task's id. -/
def idLength : Nat := 12

/-- A new id: the next of the given ones, or else a number that counts the ids made up so far. -/
def newId : Action Text := do
  let h ← get
  match h.ids.given with
  | id :: given =>
    set { h with ids := { h.ids with given } }
    return id.take idLength
  | [] =>
    let madeUp := h.ids.madeUp + 1
    set { h with ids := { h.ids with madeUp } }
    return (Text.ofHexPadded idLength madeUp).take idLength

/-- The time of the moment: the first of the times to come, which is used up unless it is the
last. -/
def now : Action Timestamp := do
  let h ← get
  match h.clock with
  | t :: next :: rest =>
    set { h with clock := next :: rest }
    return t
  | [t] => return t
  | [] => return h.journalTime

end Action

/-- The time of the next entry in the journal. -/
def Host.journalReading (h : Host) : Timestamp := h.journalClock.headD h.journalTime

/-- The time of an entry in the journal, which is used up. -/
def Action.journalNow : Action Timestamp := do
  let h ← get
  set { h with journalClock := h.journalClock.tail }
  return h.journalReading

end ReplyLedger
