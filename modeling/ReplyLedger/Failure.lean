import ReplyLedger.FileSystem.Copy
import ReplyLedger.FileSystem.Resolve
import ReplyLedger.Json.Parser
import ReplyLedger.Operation.Record
import ReplyLedger.Task.Basic

/-!
# Failures

Everything that can go wrong while a reply is applied or a ledger is kept, by its cause, with one
function for the wording. The predicates at the end say which failures belong together: those that
end a single operation only, and those that the command line reports without further ado.
-/

namespace ReplyLedger

/-- What an operation needs, or needs not to be there. -/
inductive Precondition
  /-- The place of a new file is a directory. -/
  | isDirectory (path : Text)
  /-- There is no such file. -/
  | noFile (path : Text)
  /-- There is nothing to move. -/
  | noSource (path : Text)
  /-- The place to move to is taken. -/
  | targetExists (path : Text)
  /-- The text to look for does not occur. -/
  | notFound (path : Text)
  deriving DecidableEq, Repr

/-- The message about a precondition that is not met. -/
def Precondition.message : Precondition → Text
  | .isDirectory path => path ++ " is a directory"
  | .noFile path => "File " ++ path ++ " does not exist"
  | .noSource path => "Source file " ++ path ++ " does not exist"
  | .targetExists path => "Destination file " ++ path ++ " already exists"
  | .notFound path => "Search text not found in " ++ path

/-- What can be done with the working tree of a task. -/
inductive VcsAction
  | commit
  | undo
  deriving DecidableEq, Repr

/-- The word for an action. -/
def VcsAction.word : VcsAction → Text
  | .commit => "commit"
  | .undo => "undo"

/-- The word for an action at the head of a message. -/
def VcsAction.heading : VcsAction → Text
  | .commit => "Commit"
  | .undo => "Undo"

/-- Why something could not be done. -/
inductive Failure
  /-- A path leads out of the workspace. -/
  | outside (path : Text)
  /-- A path cannot be resolved. -/
  | invalidPath (path cause : Text)
  | unmet (precondition : Precondition)
  /-- A file exists and is not to be overwritten. -/
  | declined (path : Text)
  | noWorkspace (path : Text)
  | blankTaskName
  | noActiveTask
  | unknownTask (id : Text)
  /-- A task has not come as far as an action needs, or further. -/
  | wrongStatus (action : VcsAction) (name : Text) (status : TaskStatus)
  | vcsFailed (action : VcsAction) (name : Text)
  /-- The operating system refuses a call about a path. -/
  | system (error : Errno) (path : Text)
  /-- The operating system refuses to make a link to `content` at a path. -/
  | linking (error : Errno) (content path : Text)
  /-- The current directory has been removed, so that nothing has a path from the root to it. -/
  | noCurrentDirectory
  /-- A directory is to be moved below itself. -/
  | intoItself (source target : Text)
  /-- Some entries of a directory have not been copied. -/
  | copying (faults : List FileSystem.CopyFault)
  | undecodable (fault : Utf8.DecodeFault)
  /-- A text is no JSON document. -/
  | document (text : Text) (fault : Json.Fault)
  | record (fault : RecordFault)
  /-- A path holds a NUL character. -/
  | badName
  | linkLoop (path : Text)
  | noHome
  /-- The calendar ends. -/
  | calendarEnd
  /-- A value is used as a type of value that it is not. -/
  | wrongType
  /-- A question meets the end of the input. -/
  | interrupted
  /-- The calls would have to be nested deeper than the machine can. -/
  | tooDeep

/-- A copy that was not made, as it is shown among others. -/
def FileSystem.CopyFault.shown (fault : FileSystem.CopyFault) : Text :=
  "(" ++ Text.joinWith ", " ([fault.source, fault.target, fault.reason].map Text.quote) ++ ")"

namespace Failure

/-- The message about a failure. -/
def message : Failure → Text
  | .outside path => "Path outside workspace: " ++ path
  | .invalidPath path cause => "Invalid path " ++ Text.quote path ++ ": " ++ cause
  | .unmet precondition => precondition.message
  | .declined path => "File " ++ path ++ " already exists (overwrite declined)"
  | .noWorkspace path => "Workspace root is not a directory: " ++ path
  | .blankTaskName => "Task name cannot be empty"
  | .noActiveTask => "No active task. Start one with `llmdiff task start NAME`."
  | .unknownTask id => "Unknown task: " ++ id
  | .wrongStatus action name status =>
    "Cannot " ++ action.word ++ " task '" ++ name ++ "': status is " ++ status.word ++
      ", expected applied"
  | .vcsFailed action name => action.heading ++ " failed for task '" ++ name ++ "'"
  | .system error path => error.about path
  | .linking error content path => error.aboutLink content path
  | .noCurrentDirectory => Errno.noEntry.message
  | .intoItself source target =>
    "Cannot move a directory '" ++ source ++ "' into itself '" ++ target ++ "'."
  | .copying faults => "[" ++ Text.joinWith ", " (faults.map (·.shown)) ++ "]"
  | .undecodable fault => fault.message
  | .document text fault => fault.message text
  | .record fault => fault.message
  | .badName => "embedded null byte"
  | .linkLoop path => "Symlink loop from " ++ Text.quote path
  | .noHome => "Could not determine home directory."
  | .calendarEnd => "date value out of range"
  | .wrongType => []
  | .interrupted => []
  | .tooDeep => []

/-- Whether a failure says that a single operation cannot be carried out. -/
def isRefusal : Failure → Bool
  | .outside _ | .invalidPath _ _ | .unmet _ | .declined _ => true
  | _ => false

/-- Whether a failure comes from the operating system. -/
def isSystem : Failure → Bool
  | .system _ _ | .linking _ _ _ | .noCurrentDirectory | .intoItself _ _ | .copying _ => true
  | _ => false

/-- Whether a failure says that a value or a text is not of the form that is needed. -/
def isMalformed : Failure → Bool
  | .undecodable _ | .document _ _ | .badName => true
  | .record .wrongType | .record (.missingKey _) => false
  | .record _ => true
  | _ => false

/-- Whether a failure makes a task record unreadable: it is malformed, or a member is missing. -/
def isUnreadable (f : Failure) : Bool :=
  f.isMalformed ||
    match f with
    | .record (.missingKey _) => true
    | _ => false

/-- Whether a failure ends only the operation in which it arises. -/
def endsOperation (f : Failure) : Bool := f.isRefusal || f.isSystem || f.isMalformed

/-- Whether a failure belongs to the work itself, so that its message tells the user all there is to
know. -/
def isExpected (f : Failure) : Bool :=
  f.isRefusal ||
    match f with
    | .noWorkspace _ | .blankTaskName | .noActiveTask | .unknownTask _ | .wrongStatus _ _ _
    | .vcsFailed _ _ => true
    | _ => false

end Failure

end ReplyLedger
