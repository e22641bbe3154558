import ReplyLedger.Applier
import ReplyLedger.Ledger.Steps
import ReplyLedger.Reply.Reading

/-!
# Replies and the current task

`applyReply` reads a reply, carries its operations out, and records those that were applied on the
current task. `includeFiles` adds files to the context of the current task by the paths that the
user writes.
-/

namespace ReplyLedger.Ledger

open LedgerAction Json

/-- What has become of a reply. -/
structure ReplyReport where
  operations : List (Operation Value) := []
  report : BatchReport := {}

/-- The operations of a reply; the notes about skipped blocks are shown as details. -/
def readReply (reply : Text) : Action (List (Operation Value)) := do
  (Reply.notes reply).forM fun note => Action.say .debug note
  return (Reply.operations reply).map fun op => op.map Value.text

/-- Carry out the operations of a reply for the current task. -/
def applyReply (a : Applier) (reply : Text) : LedgerAction ReplyReport := do
  let _ ← needCurrent
  let operations ← readReply reply
  if operations.isEmpty then
    Action.say .debug "No operation blocks found"
    return {}
  else
    let report ← a.applyAll operations
    if !report.applied.isEmpty then
      let _ ← recordOnCurrent report.applied
    return { operations, report }

/-- The list without the repetitions of its members. -/
def firstOccurrences (paths : List Text) : List Text :=
  paths.foldl (fun ps p => if ps.contains p then ps else ps ++ [p]) []

/-- Add the files that the user names to the context of the current task, and return the paths of
those that are new. -/
def includeFiles (w : Workspace) (paths : List Text) : LedgerAction (List Value) := do
  let relative ← paths.mapM fun p => w.relativePath p
  let fresh ← newFiles ((firstOccurrences relative).map .text)
  addFiles fresh

end ReplyLedger.Ledger
