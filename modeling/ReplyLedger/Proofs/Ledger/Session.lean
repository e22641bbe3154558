import ReplyLedger.Ledger.Steps
import ReplyLedger.Proofs.Host.Outcome

/-!
# Sessions with a ledger

What a program does with a ledger, step by step: it starts tasks and takes them up again, records
operations and files, commits and undoes, and opens the ledger anew. Beside the ledger a session
holds the copies of tasks that were loaded apart from the current one; operations may be recorded on
them, too. `Session.play` takes one step after the other and collects the answers.
-/

namespace ReplyLedger

open Json

/-- An operation that can be made: the fields that it needs are filled. -/
abbrev MadeOperation := { op : Operation Text // op.lacking? List.isEmpty = none }

/-- Operations as they are recorded. -/
def MadeOperation.values (ops : List MadeOperation) : List (Operation Value) :=
  ops.map fun op => op.1.map .text

namespace Ledger

/-- Open the ledger anew, as another run of the program would. -/
def reopen : LedgerAction Unit := do
  let l ← LedgerAction.ledger
  let fresh ← openIn l.tasksDirectory l.vcs l.pointer
  LedgerAction.update fun _ => fresh

/-- A step that a program takes with its ledger. -/
inductive Step
  | start (name : Text) (description : Option Text)
  | switch (id : Text)
  | endCurrent
  | addFiles (paths : List Text)
  | clearFiles
  | record (ops : List MadeOperation)
  /-- Load a copy of the task with an id. -/
  | load (id : Text)
  /-- Record operations on one of the copies. -/
  | recordOnCopy (index : Nat) (ops : List MadeOperation)
  | commit
  | undo (confirm : Confirm)
  | reopen

/-- A step names tasks by ids that are no paths. -/
def Step.NamesTask : Step → Prop
  | .switch id | .load id => '/' ∉ id
  | _ => True

/-- What a step answers. -/
inductive Answer
  | done
  | task (t : Task)
  | files (paths : List Value)
  | agreed (yes : Bool)

/-- A description as it is kept. -/
def descriptionOf : Option Text → Value
  | some t => .text t
  | none => .null

end Ledger

open Ledger

/-- A ledger in use, and the copies of tasks that were loaded apart from it. -/
structure Session where
  desk : Desk
  copies : List Task := []

namespace Session

/-- The session after an action of its ledger, and what that answers. -/
def act {α : Type} (s : Session) (action : LedgerAction α) (answer : α → Answer) :
    Except Failure Answer × Session :=
  ((outcome action s.desk).1.map answer, { s with desk := (outcome action s.desk).2 })

/-- The session after a step, and the answer. A copy changes in memory before its record does. -/
def take (s : Session) : Step → Except Failure Answer × Session
  | .start name description => s.act (start name (descriptionOf description)) .task
  | .switch id => s.act (switch id) .task
  | .endCurrent => s.act endCurrent fun _ => .done
  | .addFiles paths => s.act (addFiles (paths.map .text)) .files
  | .clearFiles => s.act clearFiles fun _ => .done
  | .record ops => s.act (recordOnCurrent (MadeOperation.values ops)) .task
  | .load id =>
    match outcome (s.desk.ledger.find id) s.desk.host with
    | (.ok t, host) => (.ok (.task t), ⟨{ s.desk with host }, s.copies ++ [t]⟩)
    | (.error f, host) => (.error f, { s with desk := { s.desk with host } })
  | .recordOnCopy index ops =>
    match s.copies[index]? with
    | none => (.ok .done, s)
    | some t =>
      let (answer, after) := s.act (recordOn t (MadeOperation.values ops)) .task
      (answer, { after with copies := s.copies.set index (t.record (MadeOperation.values ops)) })
  | .commit => s.act commit .task
  | .undo confirm => s.act (undo confirm) .agreed
  | .reopen => s.act reopen fun _ => .done

/-- The answers to steps that are taken one after the other, and the session after them. -/
def play : List Step → Session → List (Except Failure Answer) × Session
  | [], s => ([], s)
  | step :: rest, s =>
    let (answer, s) := s.take step
    let (answers, s) := play rest s
    (answer :: answers, s)

@[simp] theorem play_nil (s : Session) : play [] s = ([], s) := rfl

theorem play_cons (step : Step) (rest : List Step) (s : Session) :
    play (step :: rest) s =
      ((s.take step).1 :: (play rest (s.take step).2).1, (play rest (s.take step).2).2) := rfl

/-! ## How a ledger is meant to be used -/

/-- Whether a step keeps to the ids of tasks and to the copies of tasks other than the current one. -/
def Allows (s : Session) : Step → Prop
  | .switch id => '/' ∉ id
  | .load id => '/' ∉ id
  | .recordOnCopy index _ =>
    ∀ t, s.copies[index]? = some t → ∀ c, s.desk.ledger.current = some c → t.id ≠ c.id
  | _ => True

theorem Allows.namesTask {s : Session} {step : Step} (h : s.Allows step) : step.NamesTask := by
  cases step with
  | switch id => exact h
  | load id => exact h
  | _ => trivial

/-- Whether all steps do that when they are taken one after the other. -/
def AllowsAll : Session → List Step → Prop
  | _, [] => True
  | s, step :: rest => s.Allows step ∧ AllowsAll (s.take step).2 rest

/-- The steps of a run keep to it if the first ones do, and the others after them. -/
theorem allowsAll_append {steps rest : List Step} {s : Session} :
    s.AllowsAll (steps ++ rest) ↔ s.AllowsAll steps ∧ (play steps s).2.AllowsAll rest := by
  induction steps generalizing s with
  | nil => simp [AllowsAll]
  | cons step steps ih =>
    rw [List.cons_append, AllowsAll, AllowsAll, ih, play_cons, and_assoc]

/-- What every allowed step preserves holds after all steps of a run. -/
theorem play_induction {P : Session → Prop}
    (hstep : ∀ s step, P s → s.Allows step → P (s.take step).2) {steps : List Step} {s : Session}
    (hs : P s) (ha : s.AllowsAll steps) : P (play steps s).2 := by
  induction steps generalizing s with
  | nil => exact hs
  | cons step rest ih =>
    rw [play_cons]
    exact ih (hstep s step hs ha.1) ha.2

end Session

end ReplyLedger
