import ReplyLedger.Json.Value
import ReplyLedger.Operation.Basic
import ReplyLedger.Timestamp.Basic

/-!
# Tasks

A task collects the operations that were applied for it and the files that they touched, together
with the files selected for its context. Its status says how far it has come: it is pending until
operations are recorded, then applied, and from there committed or undone; recording more operations
makes it applied again.
-/

namespace ReplyLedger

open Json

/-- How far a task has come. -/
inductive TaskStatus
  | pending
  | applied
  | committed
  | undone
  deriving DecidableEq, Repr

/-- The word for a status. -/
def TaskStatus.word : TaskStatus → Text
  | .pending => "pending"
  | .applied => "applied"
  | .committed => "committed"
  | .undone => "undone"

/-- A task. Names, descriptions, paths and the fields of operations may be any record value, since a
record may have been written by hand. -/
structure Task where
  id : Text
  name : Value
  description : Value
  created : Timestamp
  operations : List (Operation Value)
  status : TaskStatus
  /-- The paths that its operations touched, each once, in the order of their first occurrence. -/
  affected : List Value
  /-- The files of its context, each once, in the order in which they were added. -/
  included : List Value

namespace Task

/-- Those of the values that `known` does not hold, each once, in the order of their first
occurrence. -/
def additions (known : List Value) : List Value → List Value
  | [] => []
  | v :: vs => if v.isAmong known then additions known vs else v :: additions (known ++ [v]) vs

/-- The list with those of `new` at its end that it does not hold yet, each once. -/
def union (known new : List Value) : List Value := known ++ additions known new

/-- The task with more operations recorded, if there are any. -/
def record (t : Task) (ops : List (Operation Value)) : Task :=
  if ops.isEmpty then t
  else
    { t with
      operations := t.operations ++ ops
      affected := union t.affected (ops.flatMap Operation.paths)
      status := .applied }

/-- The task with the files `paths` in its context. -/
def addFiles (t : Task) (paths : List Value) : Task :=
  { t with included := union t.included paths }

/-- How many operations there are of each kind, in the order in which the kinds first occur. -/
def kindCounts (ops : List (Operation Value)) : List (Operation.Kind × Nat) :=
  let kinds := ops.map Operation.kind
  let distinct := kinds.foldl (fun ks k => if ks.contains k then ks else ks ++ [k]) []
  distinct.map fun k => (k, kinds.count k)

/-- A task in one line: its name, its operations by kind, its status and the size of its context. -/
def summary (t : Task) : Text :=
  let counts := (kindCounts t.operations).map fun (k, n) => Text.ofNat n ++ " x " ++ k.word
  let ops : Text := if counts.isEmpty then "no operations" else Text.joinWith ", " counts
  let context : Text :=
    if t.included.isEmpty then []
    else " | " ++ Text.ofNat t.included.length ++ " file(s) in context"
  "Task: " ++ t.name.plain ++ " | " ++ ops ++ " (" ++ t.status.word ++ ")" ++ context

/-- Whether `t` comes before `u` in a list of recent tasks: it was created later, or at the same
instant with a greater id. -/
def isNewer (t u : Task) : Bool :=
  u.created.instant < t.created.instant ||
    (t.created.instant == u.created.instant && u.id < t.id)

end Task

end ReplyLedger
