import ReplyLedger.Text.Basic

/-!
# File operations

The five changes that a reply can ask for, over any type `α` of field values: texts when they come
from a reply, arbitrary record values when they come from a task record.
-/

namespace ReplyLedger

/-- A change to the files of a workspace. -/
inductive Operation (α : Type)
  /-- Make a file, with its missing parent directories. -/
  | create (file content : α)
  /-- Remove a file. -/
  | delete (file : α)
  /-- Move a file or a directory. -/
  | rename (source target : α)
  /-- Put `replacement` for every occurrence of `search` in a file. -/
  | edit (file search replacement : α)
  /-- Give an existing file other contents. -/
  | overwrite (file content : α)
  deriving DecidableEq, Repr

namespace Operation

/-- What kind of change an operation is. -/
inductive Kind
  | create
  | delete
  | rename
  | edit
  | overwrite
  deriving DecidableEq, Repr

/-- The word for a kind in records and messages. -/
def Kind.word : Kind → Text
  | .create => "create"
  | .delete => "delete"
  | .rename => "rename"
  | .edit => "search-replace"
  | .overwrite => "overwrite"

/-- The word for a kind at the head of a message. -/
def Kind.heading : Kind → Text
  | .create => "CREATE"
  | .delete => "DELETE"
  | .rename => "RENAME"
  | .edit => "SEARCH-REPLACE"
  | .overwrite => "OVERWRITE"

variable {α β : Type}

/-- The kind of an operation. -/
def kind : Operation α → Kind
  | .create _ _ => .create
  | .delete _ => .delete
  | .rename _ _ => .rename
  | .edit _ _ _ => .edit
  | .overwrite _ _ => .overwrite

/-- The paths that an operation touches, a rename's source before its target. -/
def paths : Operation α → List α
  | .create file _ => [file]
  | .delete file => [file]
  | .rename source target => [source, target]
  | .edit file _ _ => [file]
  | .overwrite file _ => [file]

/-- The operation with `f` applied to each field. -/
def map (f : α → β) : Operation α → Operation β
  | .create file content => .create (f file) (f content)
  | .delete file => .delete (f file)
  | .rename source target => .rename (f source) (f target)
  | .edit file search replacement => .edit (f file) (f search) (f replacement)
  | .overwrite file content => .overwrite (f file) (f content)

@[simp] theorem kind_map (f : α → β) (op : Operation α) : (op.map f).kind = op.kind := by
  cases op <;> rfl

@[simp] theorem paths_map (f : α → β) (op : Operation α) : (op.map f).paths = op.paths.map f := by
  cases op <;> rfl

/-- The one-line description of an operation whose fields are shown by `shown`. -/
def label (shown : α → Text) : Operation α → Text
  | .create file _ => shown file
  | .delete file => shown file
  | .rename source target => shown source ++ " -> " ++ shown target
  | .edit file _ _ => shown file
  | .overwrite file _ => shown file

/-- A field that an operation cannot do without. -/
inductive Requirement
  | file
  | source
  | destination
  | search
  deriving DecidableEq, Repr

/-- How a required field is named in a message. -/
def Requirement.phrase : Requirement → Text
  | .file => "a file path"
  | .source => "a source path"
  | .destination => "a destination path"
  | .search => "search text"

/-- The fields that have to be filled, in the order in which they are checked. -/
def required : Operation α → List (Requirement × α)
  | .create file _ => [(.file, file)]
  | .delete file => [(.file, file)]
  | .rename source target => [(.source, source), (.destination, target)]
  | .edit file search _ => [(.file, file), (.search, search)]
  | .overwrite file _ => [(.file, file)]

/-- The first required field that is empty, as `isEmpty` tells. -/
def lacking? (isEmpty : α → Bool) (op : Operation α) : Option Requirement :=
  op.required.findSome? fun (r, value) => if isEmpty value then some r else none

end Operation

end ReplyLedger
