import ReplyLedger.Ledger.Records
import ReplyLedger.Proofs.Json.RoundTrip
import ReplyLedger.Proofs.Timestamp.RoundTrip

/-!
# Task records there and back

A task whose fields are texts is read from the document of its record (`parseTask_document`), if the
offset of its time of creation is kept; otherwise all but the offset is
(`parseTask_document_of_hasTexts`). The record alone is read whatever values the fields are
(`Task.ofRecord_toRecord`): what reading checks and fills in is there already.
-/

namespace ReplyLedger

open Json

/-- Whether a record value is a text. -/
def Json.Value.IsText (v : Value) : Prop := ∃ t, v = .text t

theorem Json.Value.IsText.textual {v : Value} (h : v.IsText) : Textual v := by
  obtain ⟨t, rfl⟩ := h
  exact .text t

/-! ## Operations -/

namespace Operation

theorem Kind.ofValue?_word (kind : Kind) : Kind.ofValue? (.text kind.word) = some kind := by
  cases kind <;> decide

/-- An operation is read from its record, if its required fields are filled. -/
theorem ofRecord_toRecord {op : Operation Value} (h : op.lacking? Value.isEmpty = none) :
    ofRecord op.toRecord = .ok op := by
  have hmembers : ∀ members, op.toRecord = .object members →
      ofMembers op.kind members = .ok op ∧
        Value.memberOf typeKey members = some (.text op.kind.word) := by
    rintro members hm
    obtain rfl := Value.object.inj hm
    cases op <;> exact ⟨rfl, rfl⟩
  obtain ⟨hof, htype⟩ := hmembers _ rfl
  simp only [toRecord] at hof htype ⊢
  rw [ofRecord, htype]
  simp only [Option.getD_some, Kind.ofValue?_word, hof]
  simp only [bind, Except.bind, h]
  rfl

/-- Whether the fields of an operation are texts, none of the required ones empty. -/
def IsTextual (op : Operation Value) : Prop :=
  ∃ given : Operation Text, op = given.map .text ∧ given.lacking? List.isEmpty = none

theorem IsTextual.lacking? {op : Operation Value} (h : op.IsTextual) :
    op.lacking? Value.isEmpty = none := by
  obtain ⟨given, rfl, hg⟩ := h
  rw [← hg]
  cases given <;> rfl

theorem IsTextual.isText_of_mem_paths {op : Operation Value} (h : op.IsTextual) {v : Value}
    (hv : v ∈ op.paths) : v.IsText := by
  obtain ⟨given, rfl, -⟩ := h
  rw [paths_map] at hv
  obtain ⟨t, -, rfl⟩ := List.mem_map.1 hv
  exact ⟨t, rfl⟩

theorem IsTextual.textual_toRecord {op : Operation Value} (h : op.IsTextual) :
    Textual op.toRecord := by
  obtain ⟨given, rfl, -⟩ := h
  have hmembers (pairs : List (Text × Text)) (hk : (pairs.map Prod.fst).Nodup) :
      Textual (.object (pairs.map fun p => (p.1, .text p.2))) := by
    refine .object (fun m hm => ?_) (by simpa [Function.comp_def] using hk)
    obtain ⟨p, -, rfl⟩ := List.mem_map.1 hm
    exact .text p.2
  cases given with
  | create file content =>
    exact hmembers [(typeKey, _), (fileKey, file), (contentKey, content)]
      (show [typeKey, fileKey, contentKey].Nodup by decide)
  | delete file =>
    exact hmembers [(typeKey, _), (fileKey, file)] (show [typeKey, fileKey].Nodup by decide)
  | rename source target =>
    exact hmembers [(typeKey, _), (fromKey, source), (toKey, target)]
      (show [typeKey, fromKey, toKey].Nodup by decide)
  | edit file search replacement =>
    exact hmembers [(typeKey, _), (fileKey, file), (searchKey, search), (replaceKey, replacement)]
      (show [typeKey, fileKey, searchKey, replaceKey].Nodup by decide)
  | overwrite file content =>
    exact hmembers [(typeKey, _), (fileKey, file), (contentKey, content)]
      (show [typeKey, fileKey, contentKey].Nodup by decide)

end Operation

/-! ## Tasks -/

namespace Task

theorem ofValue?_word (s : TaskStatus) : TaskStatus.ofValue? (.text s.word) = some s := by
  cases s <;> decide

theorem mapM_ofRecord_map_toRecord {ops : List (Operation Value)}
    (h : ∀ op ∈ ops, op.lacking? Value.isEmpty = none) :
    (ops.map Operation.toRecord).mapM Operation.ofRecord = .ok ops := by
  induction ops with
  | nil => rfl
  | cons op ops ih =>
    rw [List.map_cons, List.mapM_cons, Operation.ofRecord_toRecord (h op List.mem_cons_self),
      ih fun op hop => h op (List.mem_cons_of_mem _ hop)]
    rfl

/-- A task is read from its record, if it has in its fields what reading leaves as it is, with the
time of creation that is read for its own. -/
theorem ofRecord_toRecord {t : Task} (hd : t.description.isEmpty → t.description = .text [])
    (ho : ∀ op ∈ t.operations, op.lacking? Value.isEmpty = none) {created : Timestamp}
    (hc : Timestamp.ofText t.created.write = .ok created) :
    ofRecord t.toRecord = .ok { t with created } := by
  have hcreated : timestampOf (.text t.created.write) = .ok created := by
    rw [timestampOf, hc]
    rfl
  have hdescription :
      (if t.description.isEmpty then .text [] else t.description) = t.description := by
    split
    · rename_i he
      exact (hd he).symm
    · rfl
  have hoperations := mapM_ofRecord_map_toRecord ho
  have hmembers : ∃ members, t.toRecord = .object members ∧
      Value.memberOf createdKey members = some (.text t.created.write) ∧
      Value.memberOf idKey members = some (.text t.id) ∧
      Value.memberOf nameKey members = some t.name ∧
      Value.memberOf descriptionKey members = some t.description ∧
      Value.memberOf operationsKey members = some (.list (t.operations.map Operation.toRecord)) ∧
      Value.memberOf statusKey members = some (.text t.status.word) ∧
      Value.memberOf affectedKey members = some (.list t.affected) ∧
      Value.memberOf includedKey members = some (.list t.included) :=
    ⟨_, rfl, rfl, rfl, rfl, rfl, rfl, rfl, rfl, rfl⟩
  obtain ⟨members, hm, h₁, h₂, h₃, h₄, h₅, h₆, h₇, h₈⟩ := hmembers
  rw [hm, ofRecord]
  simp only [h₁, h₂, h₃, h₄, h₅, h₆, h₇, h₈, Option.getD_some, bind, Except.bind, hcreated,
    hdescription, itemsOf, hoperations, ofValue?_word]
  rfl

/-- Whether the fields of a task are texts, its operations made of texts. -/
structure HasTexts (t : Task) : Prop where
  name : t.name.IsText
  description : t.description.IsText
  operations : ∀ op ∈ t.operations, op.IsTextual
  affected : ∀ v ∈ t.affected, v.IsText
  included : ∀ v ∈ t.included, v.IsText

namespace HasTexts

variable {t : Task}

theorem textual_toRecord (h : t.HasTexts) : Textual t.toRecord := by
  refine .object (fun m hm => ?_) ?_
  · simp only [List.mem_cons, List.not_mem_nil, or_false] at hm
    rcases hm with rfl | rfl | rfl | rfl | rfl | rfl | rfl | rfl
    · exact .text _
    · exact h.name.textual
    · exact h.description.textual
    · exact .text _
    · refine .list fun v hv => ?_
      obtain ⟨op, hop, rfl⟩ := List.mem_map.1 hv
      exact (h.operations op hop).textual_toRecord
    · exact .text _
    · exact .list fun v hv => (h.affected v hv).textual
    · exact .list fun v hv => (h.included v hv).textual
  · change [idKey, nameKey, descriptionKey, createdKey, operationsKey, statusKey, affectedKey,
      includedKey].Nodup
    decide

/-- A task of texts is read from its record, with the time of creation that is read for its own. -/
theorem ofRecord_toRecord (h : t.HasTexts) {created : Timestamp}
    (hc : Timestamp.ofText t.created.write = .ok created) :
    ofRecord t.toRecord = .ok { t with created } := by
  refine Task.ofRecord_toRecord ?_ (fun op hop => (h.operations op hop).lacking?) hc
  obtain ⟨d, hd⟩ := h.description
  rw [hd]
  intro he
  rw [List.isEmpty_iff.1 he]

end HasTexts

/-- Whether the fields of a task are what a program gives it: texts, and operations of texts. -/
structure IsTextual (t : Task) : Prop where
  name : t.name.IsText
  description : t.description.IsText
  created : Timestamp.IsKept t.created.offset
  operations : ∀ op ∈ t.operations, op.IsTextual
  affected : ∀ v ∈ t.affected, v.IsText
  included : ∀ v ∈ t.included, v.IsText

namespace IsTextual

variable {t : Task}

theorem hasTexts (h : t.IsTextual) : t.HasTexts :=
  ⟨h.name, h.description, h.operations, h.affected, h.included⟩

/-! ### What becomes of a task -/

/-- What is added to a list is among the new values. -/
theorem mem_of_mem_additions {known vs : List Value} {v : Value} (h : v ∈ additions known vs) :
    v ∈ vs := by
  induction vs generalizing known with
  | nil => simp [additions] at h
  | cons w vs ih =>
    rw [additions] at h
    split at h
    · exact List.mem_cons_of_mem _ (ih h)
    · rcases List.mem_cons.1 h with rfl | h
      · exact List.mem_cons_self
      · exact List.mem_cons_of_mem _ (ih h)

theorem record (h : t.IsTextual) {ops : List (Operation Value)}
    (ho : ∀ op ∈ ops, op.IsTextual) : (t.record ops).IsTextual := by
  unfold Task.record
  split
  · exact h
  · refine ⟨h.name, h.description, h.created, fun op hop => ?_, fun v hv => ?_, h.included⟩
    · rcases List.mem_append.1 hop with hop | hop
      · exact h.operations op hop
      · exact ho op hop
    · rcases List.mem_append.1 hv with hv | hv
      · exact h.affected v hv
      · obtain ⟨op, hop, hv⟩ := List.mem_flatMap.1 (mem_of_mem_additions hv)
        exact (ho op hop).isText_of_mem_paths hv

theorem addFiles (h : t.IsTextual) {paths : List Value} (hp : ∀ v ∈ paths, v.IsText) :
    (t.addFiles paths).IsTextual := by
  refine ⟨h.name, h.description, h.created, h.operations, h.affected, fun v hv => ?_⟩
  rcases List.mem_append.1 hv with hv | hv
  · exact h.included v hv
  · exact hp v (mem_of_mem_additions hv)

theorem clear (h : t.IsTextual) : ({ t with included := [] } : Task).IsTextual :=
  ⟨h.name, h.description, h.created, h.operations, h.affected, by simp⟩

theorem setStatus (h : t.IsTextual) (status : TaskStatus) :
    ({ t with status } : Task).IsTextual :=
  ⟨h.name, h.description, h.created, h.operations, h.affected, h.included⟩

theorem setDescription (h : t.IsTextual) {description : Value} (hd : description.IsText) :
    ({ t with description } : Task).IsTextual :=
  ⟨h.name, hd, h.created, h.operations, h.affected, h.included⟩

end IsTextual

end Task

/-- A task of texts is read from the document of its record, with the time of creation that is read
for its own. -/
theorem Ledger.parseTask_document_of_hasTexts {t : Task} (h : t.HasTexts) {created : Timestamp}
    (hc : Timestamp.ofText t.created.write = .ok created) :
    parseTask t.toRecord.document = .ok { t with created } := by
  rw [parseTask, ofDocument_document h.textual_toRecord]
  simp only [h.ofRecord_toRecord hc]

/-- **A task is read from the document of its record.** -/
theorem Ledger.parseTask_document {t : Task} (h : t.IsTextual) :
    parseTask t.toRecord.document = .ok t :=
  parseTask_document_of_hasTexts h.hasTexts (Timestamp.ofText_write h.created)

end ReplyLedger
