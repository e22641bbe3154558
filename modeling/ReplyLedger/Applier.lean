import ReplyLedger.FileSystem.Move
import ReplyLedger.Journal
import ReplyLedger.Workspace

/-!
# Applying operations

An `Applier` carries out operations in a workspace. Paths are resolved first, and an operation that
would leave the workspace is refused before anything is touched. A file is overwritten by a creation
only with consent.

A batch is applied operation by operation. An operation that cannot be carried out is counted and
noted, and the batch goes on; nothing that has been applied is taken back. What ends the whole batch
is a question that is not answered, a note that cannot be taken, or a machine that cannot nest calls
as deep as an operation takes. That is heeded where what an operation names decides how deep it is:
when the directories above its target are made, and when a directory is copied.
-/

namespace ReplyLedger

open ReplyLedger.Action Json

/-- Carries out operations in a workspace. -/
structure Applier where
  workspace : Workspace
  /-- Asked before a creation overwrites a file; without it the overwriting is declined. -/
  confirm : Option Confirm := none
  /-- Where every operation of a batch is noted; without it, among the details shown. -/
  journal : Option Journal := none
  /-- How deep the machine can nest calls; without it, as deep as they go. -/
  nesting : Option Nat := none

/-- An operation that was not carried out, and why. -/
structure BatchFailure where
  operation : Operation Value
  reason : Text

/-- What has become of the operations of a batch. -/
structure BatchReport where
  applied : List (Operation Value) := []
  failures : List BatchFailure := []

namespace BatchReport

/-- How many operations were applied and how many failed. -/
def summary (r : BatchReport) : Text :=
  let hint : Text := if r.failures.isEmpty then [] else " (see log)"
  Text.ofNat r.applied.length ++ " applied, " ++ Text.ofNat r.failures.length ++ " failed" ++ hint

end BatchReport

namespace Applier

/-- The text of a field that has to be a text. -/
def needText : Value → Action Text
  | .text t => return t
  | _ => fail .wrongType

/-- The location of a path of an operation, as the path to it. -/
def locate (a : Applier) (path : Text) : Action FilePath :=
  FilePath.ofNames <$> a.workspace.resolveIn path

/-- The location of a path that has to be a regular file. -/
def locateFile (a : Applier) (path : Text) : Action FilePath := do
  let target ← a.locate path
  if ← isFile target.text then return target else fail (.unmet (.noFile path))

/-- Whether a file may be overwritten. -/
def mayOverwrite (a : Applier) (path : Text) : Action Bool :=
  match a.confirm with
  | some confirm => ask confirm path
  | none => return false

/-! ## Room for a target

The directories above a target that are missing are made from the top down, each by a call that waits
for the one about the directory above it. So these calls are nested as deep as directories are
missing. Those of a copy are nested twice as deep as the directories that it enters.
-/

/-- How many directories are missing in a row, from the one with the names `names` after the anchor
upwards. The names are given from the last one on. -/
def missing (files : FileSystem) (cwd : CurrentDirectory) (anchor : FilePath.Anchor) :
    List Text → Nat
  | [] => 0
  | name :: above =>
    match files.makeDirectory cwd (FilePath.text ⟨anchor, (name :: above).reverse⟩) with
    | .error .noEntry => missing files cwd anchor above + 1
    | _ => 0

/-- Whether calls can be nested so deep. -/
def canNest (a : Applier) (depth : Nat) : Bool := a.nesting.all (depth ≤ ·)

/-- Fail if calls cannot be nested as deep as it takes to make a directory with those above it. -/
def checkDepth (a : Applier) (directory : FilePath) : Action Unit := do
  let h ← get
  if a.canNest (missing h.files h.cwd directory.anchor directory.names.reverse) then return ()
  else fail .tooDeep

/-- Make the directories above a target. -/
def makeRoom (a : Applier) (target : FilePath) : Action Unit := do
  a.checkDepth target.parent
  ensureDirectories target.parent

/-- How many directories a copy can enter, one in the other. Where calls can be nested as deep as
they go, no path is long enough for more. -/
def levels (a : Applier) : Nat := a.nesting.elim (FileSystem.maxPathLength + 2) (· / 2)

/-! ## Operations -/

/-- Make a file. -/
def create (a : Applier) (path : Text) (content : Value) : Action Unit := do
  let target ← a.locate path
  if ← isDirectory target.text then fail (.unmet (.isDirectory path))
  if ← pathExists target.text then
    if !(← a.mayOverwrite path) then fail (.declined path)
  a.makeRoom target
  writeValue target.text content

/-- Remove a file. -/
def delete (a : Applier) (path : Text) : Action Unit := do
  let target ← a.locateFile path
  change target.text fun files cwd => files.unlink cwd target.text

/-- Copy a directory to another place, and then remove it, if all of it has been copied. -/
def moveByCopy (a : Applier) (src dst : FileSystem.Place) : Action Unit := do
  let h ← get
  let (ending, files) := h.files.copyTree a.levels src dst
  set { h with files }
  match ending with
  | .done => modify (·.displace (.removal src.location))
  | .refused e path => fail (.system e path)
  | .faulty faults => fail (.copying faults)
  | .tooDeep => fail .tooDeep

/-- Move an entry to a place that is free. -/
def move (a : Applier) (source target : Text) : Action Unit := do
  let h ← get
  match h.files.relocateAll h.cwd source target with
  | .ok (.displace displacement) => set (h.displace displacement)
  | .ok (.copy p q) => a.moveByCopy ⟨p, source⟩ ⟨q, target⟩
  | .error (.system e path) => fail (.system e path)
  | .error (.link e content path) => fail (.linking e content path)
  | .error .intoItself => fail (.intoItself source target)

/-- Move a file or a directory. -/
def rename (a : Applier) (source : Text) (target : Value) : Action Unit := do
  let src ← a.locate source
  let target ← needText target
  let dst ← a.locate target
  if !(← pathExists src.text) then fail (.unmet (.noSource source))
  if ← pathExists dst.text then fail (.unmet (.targetExists target))
  a.makeRoom dst
  a.move src.text dst.text

/-- Replace every occurrence of a text in a file. -/
def edit (a : Applier) (path : Text) (search replacement : Value) : Action Unit := do
  let target ← a.locateFile path
  let content ← readText target.text
  let search ← needText search
  let count := Text.occurrences search content
  if count = 0 then fail (.unmet (.notFound path))
  let replacement ← needText replacement
  writeText target.text (Text.replaceAll search replacement content)
  say .debug ("Replaced " ++ Text.ofNat count ++ " occurrence(s) in " ++ path)

/-- Give an existing file other contents. -/
def overwrite (a : Applier) (path : Text) (content : Value) : Action Unit := do
  let target ← a.locateFile path
  writeValue target.text content

/-- Carry out an operation. -/
def apply (a : Applier) : Operation Value → Action Unit
  | .create file content => do a.create (← needText file) content
  | .delete file => do a.delete (← needText file)
  | .rename source target => do a.rename (← needText source) target
  | .edit file search replacement => do a.edit (← needText file) search replacement
  | .overwrite file content => do a.overwrite (← needText file) content

/-- Note what has become of an operation. -/
def note (a : Applier) (entry : Text) : Action Unit :=
  match a.journal with
  | some journal => journal.write entry
  | none => say .debug entry

/-- Carry out one operation of a batch and add it to the report. -/
def applyNext (a : Applier) (r : BatchReport) (op : Operation Value) : Action BatchReport := do
  let failure ← rescue (a.apply op *> return none) Failure.endsOperation fun f => return some f
  match failure with
  | none =>
    a.note ("✓ " ++ op.kind.word ++ ": " ++ op.label Value.plain)
    return { r with applied := r.applied ++ [op] }
  | some f =>
    a.note ("✗ " ++ op.kind.word ++ ": " ++ f.message)
    return { r with failures := r.failures ++ [⟨op, f.message⟩] }

/-- Carry out the operations of a batch, in order. -/
def applyAll (a : Applier) (ops : List (Operation Value)) : Action BatchReport :=
  ops.foldlM a.applyNext {}

end Applier

end ReplyLedger
