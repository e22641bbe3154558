import ReplyLedger.Json.Value
import ReplyLedger.Operation.Basic
import ReplyLedger.Timestamp.Iso

/-!
# Operation records

How operations stand in a task record: an object with the kind under `type` and one member for each
field. Reading takes fields of any type, fills in a missing content or replacement with the empty
text, and refuses a record whose kind is unknown or whose required fields are missing or empty.
-/

namespace ReplyLedger

open Json

/-- Why a value is no record of an operation or a task. -/
inductive RecordFault
  /-- It is used as a type of value that it is not. -/
  | wrongType
  /-- A member is missing. -/
  | missingKey (key : Text)
  /-- A field of an operation is missing. -/
  | missingField (kind : Operation.Kind) (key : Text)
  /-- An operation's kind is none of the five. -/
  | unknownKind (given : Value)
  /-- A required field of an operation is empty. -/
  | emptyField (kind : Operation.Kind) (field : Operation.Requirement)
  /-- A task's status is none of the four. -/
  | unknownStatus (given : Value)
  /-- A task's time of creation is no timestamp. -/
  | timestamp (fault : Timestamp.Fault)

/-- The message about a value that is no record. -/
def RecordFault.message : RecordFault → Text
  | .wrongType => []
  | .missingKey key => Text.quote key
  | .missingField kind key => kind.word ++ " operation is missing field " ++ Text.quote key
  | .unknownKind given => "Unknown operation type: " ++ given.shown
  | .emptyField kind field => kind.heading ++ " requires " ++ field.phrase
  | .unknownStatus given => given.shown ++ " is not a valid TaskStatus"
  | .timestamp fault => fault.message

namespace Operation

/-- The names of the members of operation records. -/
def typeKey : Text := "type"
@[inherit_doc typeKey] def fileKey : Text := "file"
@[inherit_doc typeKey] def contentKey : Text := "content"
@[inherit_doc typeKey] def fromKey : Text := "from"
@[inherit_doc typeKey] def toKey : Text := "to"
@[inherit_doc typeKey] def searchKey : Text := "search"
@[inherit_doc typeKey] def replaceKey : Text := "replace"

/-- The record of an operation. -/
def toRecord (op : Operation Value) : Value :=
  .object ((typeKey, .text op.kind.word) ::
    match op with
    | .create file content => [(fileKey, file), (contentKey, content)]
    | .delete file => [(fileKey, file)]
    | .rename source target => [(fromKey, source), (toKey, target)]
    | .edit file search replacement =>
      [(fileKey, file), (searchKey, search), (replaceKey, replacement)]
    | .overwrite file content => [(fileKey, file), (contentKey, content)])

/-- The kind that a record's word names. -/
def Kind.ofValue? : Value → Option Kind
  | .text t => [create, delete, rename, edit, overwrite].find? fun k => k.word == t
  | _ => none

/-- The operation of a kind with the given members, before its required fields are checked. -/
def ofMembers (kind : Kind) (members : List (Text × Value)) :
    Except RecordFault (Operation Value) :=
  let needed (key : Text) : Except RecordFault Value :=
    match Value.memberOf key members with
    | some v => .ok v
    | none => .error (.missingField kind key)
  let optional (key : Text) : Value := (Value.memberOf key members).getD (.text [])
  match kind with
  | .create => do return .create (← needed fileKey) (optional contentKey)
  | .delete => do return .delete (← needed fileKey)
  | .rename => do return .rename (← needed fromKey) (← needed toKey)
  | .edit => do return .edit (← needed fileKey) (← needed searchKey) (optional replaceKey)
  | .overwrite => do return .overwrite (← needed fileKey) (optional contentKey)

/-- The operation of a record. -/
def ofRecord : Value → Except RecordFault (Operation Value)
  | .object members =>
    let given := (Value.memberOf typeKey members).getD .null
    match Kind.ofValue? given with
    | none => .error (.unknownKind given)
    | some kind => do
      let op ← ofMembers kind members
      match op.lacking? Value.isEmpty with
      | some field => .error (.emptyField kind field)
      | none => return op
  | _ => .error .wrongType

end Operation

end ReplyLedger
