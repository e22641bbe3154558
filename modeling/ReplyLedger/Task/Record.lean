import ReplyLedger.Operation.Record
import ReplyLedger.Task.Basic

/-!
# Task records

How a task is kept: an object with a member for each of its fields. Reading is lenient about missing
lists and descriptions, takes any value for an id by its text, and reads the first faulty member it
meets in the order time of creation, id, name, description, operations, status, files.
-/

namespace ReplyLedger

open Json

/-- The status that a record's word names. -/
def TaskStatus.ofValue? : Value → Option TaskStatus
  | .text t => [pending, applied, committed, undone].find? fun s => s.word == t
  | _ => none

namespace Task

/-- The names of the members of task records. -/
def idKey : Text := "id"
@[inherit_doc idKey] def nameKey : Text := "name"
@[inherit_doc idKey] def descriptionKey : Text := "description"
@[inherit_doc idKey] def createdKey : Text := "createdAt"
@[inherit_doc idKey] def operationsKey : Text := "operations"
@[inherit_doc idKey] def statusKey : Text := "status"
@[inherit_doc idKey] def affectedKey : Text := "affectedFiles"
@[inherit_doc idKey] def includedKey : Text := "includedFiles"

/-- The record of a task. -/
def toRecord (t : Task) : Value :=
  .object [
    (idKey, .text t.id),
    (nameKey, t.name),
    (descriptionKey, t.description),
    (createdKey, .text t.created.write),
    (operationsKey, .list (t.operations.map Operation.toRecord)),
    (statusKey, .text t.status.word),
    (affectedKey, .list t.affected),
    (includedKey, .list t.included)]

/-- The items of a value: of a list its items, of a text its characters, of an object its keys. -/
def itemsOf : Value → Except RecordFault (List Value)
  | .list items => .ok items
  | .text t => .ok (t.map fun c => .text [c])
  | .object members => .ok (members.map fun m => .text m.1)
  | _ => .error .wrongType

/-- The timestamp that a value writes. -/
def timestampOf : Value → Except RecordFault Timestamp
  | .text t => (Timestamp.ofText t).mapError .timestamp
  | _ => .error .wrongType

/-- The task of a record. -/
def ofRecord : Value → Except RecordFault Task
  | .object members => do
    let needed (key : Text) : Except RecordFault Value :=
      match Value.memberOf key members with
      | some v => .ok v
      | none => .error (.missingKey key)
    let items (key : Text) : Except RecordFault (List Value) :=
      itemsOf ((Value.memberOf key members).getD (.list []))
    let created ← timestampOf (← needed createdKey)
    let id := (← needed idKey).plain
    let name ← needed nameKey
    let description := (Value.memberOf descriptionKey members).getD .null
    let description := if description.isEmpty then .text [] else description
    let operations ← (← items operationsKey).mapM Operation.ofRecord
    let given := (Value.memberOf statusKey members).getD (.text TaskStatus.pending.word)
    let status ←
      match TaskStatus.ofValue? given with
      | some s => .ok s
      | none => .error (.unknownStatus given)
    let affected ← items affectedKey
    let included ← items includedKey
    return { id, name, description, created, operations, status, affected, included }
  | _ => .error .wrongType

end Task

end ReplyLedger
