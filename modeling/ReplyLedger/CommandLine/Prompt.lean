import ReplyLedger.Console
import ReplyLedger.Text.Blank

/-!
# A prompt

The `Confirm` that a run of the program by itself asks with: it shows the question and reads a line,
until a line is an answer. Nothing is said about commands that depends on it.
-/

namespace ReplyLedger.Confirm

/-- The answer that a line gives, if it is one; an empty line means no. -/
def answerOf? (line : Text) : Option Bool :=
  let word := Text.strip (line.map Char.toLower)
  if word = ['y'] || word = ['y', 'e', 's'] then some true
  else if word = ['n'] || word = ['n', 'o'] || word = [] then some false
  else none

/-- Put a question until a line of the lines that are left answers it. -/
def askFrom (question : Text) : List Text → StateM Console (Option Bool)
  | [] => do
    modify fun c => { c.emit (.prompt question) with input := [] }
    return none
  | line :: rest => do
    modify fun c =>
      { c.emit (.prompt question) with input := Text.joinWith ['\n'] (rest ++ [[]]) }
    match answerOf? line with
    | some answer => return some answer
    | none => do
      modify fun c => c.emit .invalidAnswer
      askFrom question rest

/-- The lines of an input, split at line feeds; what follows the last one is a line only if it is
not empty. -/
def inputLines (input : Text) : List Text :=
  let parts := Text.segments '\n' (Text.unifyLineEnds input)
  if parts.getLast? = some [] then parts.dropLast else parts

/-- Answers read from the input, a line at a time. -/
def fromInput : Confirm := fun question => do
  let c ← get
  askFrom question (inputLines c.input)

end ReplyLedger.Confirm
