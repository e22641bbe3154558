import ReplyLedger.Proofs.Operation.Records
import ReplyLedger.Proofs.Timestamp.Reading

/-!
# Records are normalised once

A task is read from a record whatever forms its members have, as long as each can be read
(`ofRecord_eq_ok_iff`). Its own record is then read as the same task, so a record that has been read
and written once stays as it is (`ofRecord_toRecord_of_ofRecord`).

What makes it so is that reading leaves nothing to do: the offset of the time of creation is kept, an
empty description is the empty text, and the required fields of the operations are filled.
-/

namespace ReplyLedger

open Json

namespace Operation

/-- An operation that has been read has its required fields filled. -/
theorem lacking?_of_ofRecord {v : Value} {op : Operation Value} (h : ofRecord v = .ok op) :
    op.lacking? Value.isEmpty = none := by
  cases v with
  | object members =>
    rcases ofRecord_cases members with ⟨f, -, hf⟩ | ⟨op', -, -, hfilled, hop⟩
    · exact nomatch hf.symm.trans h
    · exact Except.ok.inj (hop.symm.trans h) ▸ hfilled
  | _ => exact nomatch h

theorem lacking?_of_mapM_ofRecord {records : List Value} {ops : List (Operation Value)}
    (h : records.mapM ofRecord = .ok ops) : ∀ op ∈ ops, op.lacking? Value.isEmpty = none := by
  induction records generalizing ops with
  | nil =>
    obtain rfl := Except.ok.inj h
    exact nofun
  | cons r records ih =>
    rw [List.mapM_cons] at h
    obtain ⟨op, hop, h⟩ := bind_eq_ok_iff.1 h
    obtain ⟨ops', hops, h⟩ := bind_eq_ok_iff.1 h
    obtain rfl := Except.ok.inj h
    exact List.forall_mem_cons.2 ⟨lacking?_of_ofRecord hop, ih hops⟩

end Operation

namespace Task

variable {members : List (Text × Value)} {t : Task}

/-- The description of a task, for what its record has under the key. -/
def normalDescription (given : Value) : Value := if given.isEmpty then .text [] else given

theorem normalDescription_isEmpty {given : Value} (h : (normalDescription given).isEmpty) :
    normalDescription given = .text [] := by
  unfold normalDescription at *
  split at h
  · rw [if_pos ‹_›]
  · exact absurd h ‹_›

/-- The values that a member lists, none if it is missing, are those of `vs`. -/
def Lists (members : List (Text × Value)) (key : Text) (vs : List Value) : Prop :=
  itemsOf ((Value.memberOf key members).getD (.list [])) = .ok vs

/-- What the members of a record say of the task that is read from them. -/
structure IsReadFrom (members : List (Text × Value)) (t : Task) : Prop where
  created : ∃ written, Value.memberOf createdKey members = some (.text written) ∧
    Timestamp.ofText written = .ok t.created
  id : ∃ v, Value.memberOf idKey members = some v ∧ t.id = v.plain
  name : Value.memberOf nameKey members = some t.name
  description : t.description = normalDescription ((Value.memberOf descriptionKey members).getD .null)
  operations : ∃ records, Lists members operationsKey records ∧
    records.mapM Operation.ofRecord = .ok t.operations
  status : TaskStatus.ofValue?
    ((Value.memberOf statusKey members).getD (.text TaskStatus.pending.word)) = some t.status
  affected : Lists members affectedKey t.affected
  included : Lists members includedKey t.included

theorem timestampOf_eq_ok_iff {v : Value} {created : Timestamp} :
    timestampOf v = .ok created ↔ ∃ written, v = .text written ∧
      Timestamp.ofText written = .ok created := by
  cases v with
  | text written =>
    rcases hread : Timestamp.ofText written with f | read
    · simp [timestampOf, hread, Except.mapError]
    · simp [timestampOf, hread, Except.mapError]
  | _ => simp [timestampOf]

/-- What an object has under a key that it cannot do without. -/
theorem eq_some_of_needed {found : Option Value} {v : Value} {f : RecordFault}
    (h : (match found with | some v => Except.ok v | none => .error f) = .ok v) :
    found = some v := by
  cases found with
  | none => exact nomatch h
  | some w => rw [Except.ok.inj h]

/-- **A record is read as a task exactly if the task is what its members say.** -/
theorem ofRecord_eq_ok_iff {d : Value} :
    ofRecord d = .ok t ↔ ∃ members, d = .object members ∧ t.IsReadFrom members := by
  constructor
  · intro h
    cases d with
    | object members =>
      refine ⟨members, rfl, ?_⟩
      rw [ofRecord] at h
      obtain ⟨v, hv, h⟩ := bind_eq_ok_iff.1 h
      obtain ⟨created, hcreated, h⟩ := bind_eq_ok_iff.1 h
      obtain ⟨id, hid, h⟩ := bind_eq_ok_iff.1 h
      obtain ⟨name, hname, h⟩ := bind_eq_ok_iff.1 h
      obtain ⟨records, hrecords, h⟩ := bind_eq_ok_iff.1 h
      obtain ⟨operations, hoperations, h⟩ := bind_eq_ok_iff.1 h
      dsimp only at h
      split at h
      · rename_i status hstatus
        obtain ⟨_, hsame, h⟩ := bind_eq_ok_iff.1 h
        obtain rfl := Except.ok.inj hsame
        obtain ⟨affected, haffected, h⟩ := bind_eq_ok_iff.1 h
        obtain ⟨included, hincluded, h⟩ := bind_eq_ok_iff.1 h
        obtain rfl := Except.ok.inj h
        obtain ⟨written, rfl, hwritten⟩ := timestampOf_eq_ok_iff.1 hcreated
        exact
          { created := ⟨written, eq_some_of_needed hv, hwritten⟩
            id := ⟨id, eq_some_of_needed hid, rfl⟩
            name := eq_some_of_needed hname
            description := rfl
            operations := ⟨records, hrecords, hoperations⟩
            status := hstatus
            affected := haffected
            included := hincluded }
      · obtain ⟨_, hfault, -⟩ := bind_eq_ok_iff.1 h
        cases hfault
    | _ => cases h
  · rintro ⟨members, rfl, h⟩
    obtain ⟨written, hwritten, hcreated⟩ := h.created
    obtain ⟨v, hv, hid⟩ := h.id
    obtain ⟨records, hrecords, hoperations⟩ := h.operations
    have hcreated : timestampOf (.text written) = .ok t.created :=
      timestampOf_eq_ok_iff.2 ⟨written, rfl, hcreated⟩
    have haffected := h.affected
    have hincluded := h.included
    unfold Lists at hrecords haffected hincluded
    rw [ofRecord]
    simp only [hwritten, hcreated, hv, h.name, hrecords, hoperations, h.status, haffected, hincluded,
      bind, Except.bind, ← hid]
    rw [← normalDescription, ← h.description]
    rfl

/-- **Records are normalised once.** The record of a task that was read from a value is read as the
same task again, and so it is also what saving that task writes: its members say the same of the time
of creation, the operations, the status and the files as those of the first record. A document with
the record of a task of texts is read as the task as well. -/
theorem ofRecord_toRecord_of_ofRecord {d : Value} (h : ofRecord d = .ok t) :
    ofRecord t.toRecord = .ok t ∧ toRecord <$> ofRecord t.toRecord = .ok t.toRecord ∧
      (∃ given kept, d = .object given ∧ t.toRecord = .object kept ∧
        t.IsReadFrom given ∧ t.IsReadFrom kept) ∧
      (t.HasTexts → Ledger.parseTask t.toRecord.document = .ok t) := by
  obtain ⟨given, rfl, hgiven⟩ := ofRecord_eq_ok_iff.1 h
  obtain ⟨written, -, hwritten⟩ := hgiven.created
  obtain ⟨records, -, hoperations⟩ := hgiven.operations
  have hcreated : Timestamp.ofText t.created.write = .ok t.created :=
    Timestamp.ofText_write (Timestamp.isKept_of_ofText_eq_ok hwritten)
  have hdescription : t.description.isEmpty → t.description = .text [] := by
    rw [hgiven.description]
    exact normalDescription_isEmpty
  have hback : ofRecord t.toRecord = .ok t :=
    ofRecord_toRecord hdescription (Operation.lacking?_of_mapM_ofRecord hoperations) hcreated
  obtain ⟨kept, hkept, hread⟩ := ofRecord_eq_ok_iff.1 hback
  exact ⟨hback, by rw [hback]; rfl, ⟨given, kept, rfl, hkept, hgiven, hread⟩,
    fun htexts => Ledger.parseTask_document_of_hasTexts htexts hcreated⟩

/-- The members of a record edited by hand: a number for the id, a week date with a long fraction and
an offset with seconds, a member that is not known, a text and an object for lists of files, and
without a description and a status. -/
def handEdited : List (Text × Value) :=
  [("colour", .text "red"), (idKey, .int 7), (nameKey, .text ['N']),
    (createdKey, .text "2024-W01-1T10:00:00.123456789+01:00:30"),
    (operationsKey, .list [.object [(Operation.typeKey, .text "delete"), ("note", .null),
      (Operation.fileKey, .text ['a'])]]),
    (affectedKey, .text "ab"), (includedKey, .object [("c", .null)])]

/-- The task that is read from them. -/
def handEditedTask : Task where
  id := ['7']
  name := .text ['N']
  description := .text []
  created :=
    { date := Date.ofInRange Date.inRange_firstDay, micros := 36000123456, offset := 3630000000
      micros_lt := by decide, offset_lt := by decide }
  operations := [.delete (.text ['a'])]
  status := .pending
  affected := [.text ['a'], .text ['b']]
  included := [.text ['c']]

theorem isReadFrom_handEdited : handEditedTask.IsReadFrom handEdited where
  created := ⟨_, rfl, eq_ok_of_toOption (by decide +kernel)⟩
  id := ⟨_, rfl, rfl⟩
  name := rfl
  description := rfl
  operations := ⟨_, rfl, rfl⟩
  status := rfl
  affected := rfl
  included := rfl

/-- Its record is read as the task from then on, and so is the document of its record. -/
theorem ofRecord_toRecord_of_ofRecord_handEdited :
    ofRecord (.object handEdited) = .ok handEditedTask ∧
      ofRecord handEditedTask.toRecord = .ok handEditedTask ∧
      (∃ kept, handEditedTask.toRecord = .object kept ∧ handEditedTask.IsReadFrom kept) ∧
      Ledger.parseTask handEditedTask.toRecord.document = .ok handEditedTask := by
  have hread : ofRecord (.object handEdited) = .ok handEditedTask :=
    ofRecord_eq_ok_iff.2 ⟨handEdited, rfl, isReadFrom_handEdited⟩
  obtain ⟨hback, -, ⟨_, kept, -, hkept, -, hfrom⟩, hdocument⟩ := ofRecord_toRecord_of_ofRecord hread
  refine ⟨hread, hback, ⟨kept, hkept, hfrom⟩, hdocument ⟨⟨_, rfl⟩, ⟨_, rfl⟩, ?_, ?_, ?_⟩⟩
  · exact List.forall_mem_singleton.2 ⟨.delete ['a'], rfl, rfl⟩
  · exact List.forall_mem_cons.2 ⟨⟨_, rfl⟩, List.forall_mem_singleton.2 ⟨_, rfl⟩⟩
  · exact List.forall_mem_singleton.2 ⟨_, rfl⟩

end Task

end ReplyLedger
