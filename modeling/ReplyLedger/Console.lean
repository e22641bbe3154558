import ReplyLedger.Text.Lines

/-!
# The console

What a run shows and asks. Everything shown is kept as a transcript of events, from which the two
output streams are written; what is asked is kept in order, and answers may be read from the input.
A `Confirm` answers yes-or-no questions, and can do so only from the question and the console. How the
command line asks its user is left open: that is a `Confirm` that it is given.
-/

namespace ReplyLedger

/-- How important a message is. -/
inductive Level
  | info
  | success
  | warn
  | error
  | debug
  deriving DecidableEq, Repr

/-- Something that is shown. -/
inductive Event
  /-- A message of a level. -/
  | message (level : Level) (text : Text)
  /-- A line of plain text. -/
  | line (text : Text)
  /-- A question. -/
  | prompt (question : Text)
  /-- The remark that an answer is neither yes nor no. -/
  | invalidAnswer
  /-- The remark that a run has been broken off. -/
  | aborted
  deriving DecidableEq, Repr

/-- What a run has shown and asked, and the input that it has not read. -/
structure Console where
  transcript : List Event := []
  asked : List Text := []
  input : Text := []
  deriving DecidableEq, Repr

namespace Console

/-- The console after one more event. -/
def emit (c : Console) (e : Event) : Console := { c with transcript := c.transcript ++ [e] }

/-- The mark in front of a message. -/
def mark : Level → Text
  | .info => "[INFO] "
  | .success => "[OK] "
  | .warn => "[WARN] "
  | .error => "[ERROR] "
  | .debug => "[DEBUG] "

/-- What an event writes to the output; details are left out unless `verbose`. -/
def outputOf (verbose : Bool) : Event → Text
  | .message .error _ => []
  | .message .debug text => if verbose then mark .debug ++ text ++ ['\n'] else []
  | .message level text => mark level ++ text ++ ['\n']
  | .line text => text ++ ['\n']
  | .prompt question => question ++ " [y/N]: "
  | .invalidAnswer => "Error: invalid input\n"
  | .aborted => []

/-- What an event writes to the error output. -/
def errorOf : Event → Text
  | .message .error text => mark .error ++ text ++ ['\n']
  | .aborted => "Aborted!\n"
  | _ => []

/-- The output of a run. -/
def output (verbose : Bool) (c : Console) : Text := c.transcript.flatMap (outputOf verbose)

/-- The error output of a run. -/
def errors (c : Console) : Text := c.transcript.flatMap errorOf

/-- The messages of a transcript, in order. -/
def messages (c : Console) : List (Level × Text) :=
  c.transcript.filterMap fun
    | .message level text => some (level, text)
    | _ => none

end Console

/-- Answers yes-or-no questions; no answer means that the input has come to its end. -/
abbrev Confirm := Text → StateM Console (Option Bool)

namespace Confirm

/-- Note a question and answer it with `answer`, which may look at the questions before it. -/
def noted (answer : List Text → Text → Bool) : Confirm := fun question => do
  let c ← get
  set { c with asked := c.asked ++ [question] }
  return some (answer c.asked question)

/-- The same answer to every question. -/
def always (answer : Bool) : Confirm := noted fun _ _ => answer

/-- The answers of a list in turn, and no after that. -/
def inTurn (answers : List Bool) : Confirm :=
  noted fun before _ => answers[before.length]?.getD false

/-- The answers of a table, and no to other questions. -/
def byQuestion (table : List (Text × Bool)) : Confirm :=
  noted fun _ question => (table.lookup question).getD false

end Confirm

end ReplyLedger
