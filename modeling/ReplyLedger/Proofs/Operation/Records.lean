import ReplyLedger.Failure
import ReplyLedger.Proofs.Task.RoundTrip

/-!
# What the records of operations are

An object is a record of an operation exactly if it names one of the five kinds and none of the
required fields of the kind is missing or empty (`Kind.IsRecord`). Reading accepts these objects and
no others, and what keeps an object from being read is one of three faults (`IsFault`). The record of
what is read is the object restricted to the fields of the kind, a missing optional field written as
the empty text (`Kind.restricted`). All of it is one theorem, `ofRecord_object`.

Required and optional fields are told by tables over the kinds, apart from the reader and the writer,
so the two are compared by what they do with each key.
-/

namespace ReplyLedger

open Json

theorem Json.Value.memberOf_of_not_mem {key : Text} {members : List (Text × Value)}
    (h : key ∉ members.map Prod.fst) : memberOf key members = none := by
  rw [memberOf, Option.map_eq_none_iff, List.find?_eq_none]
  intro m hm he
  exact h (List.mem_map.2 ⟨m, hm, by simpa using he⟩)

/-- A key of an object leads to one of its members. -/
theorem Json.Value.exists_memberOf_of_mem {key : Text} {members : List (Text × Value)}
    (h : key ∈ members.map Prod.fst) : ∃ v, (key, v) ∈ members ∧ memberOf key members = some v := by
  obtain ⟨m, hm, rfl⟩ := List.mem_map.1 h
  rcases hfound : members.find? fun n => n.1 == m.1 with _ | n
  · exact absurd (beq_self_eq_true m.1) (List.find?_eq_none.1 hfound m hm)
  · have hkey : n.1 = m.1 := by simpa using List.find?_some hfound
    exact ⟨n.2, hkey ▸ List.mem_of_find?_eq_some hfound, by rw [memberOf, hfound]; rfl⟩

namespace Operation

/-! ## The fields of a kind -/

/-- The key of the member that holds a required field. -/
def Requirement.key : Requirement → Text
  | .file => fileKey
  | .source => fromKey
  | .destination => toKey
  | .search => searchKey

/-- The fields that an operation of a kind cannot do without, in the order in which they are read. -/
def Kind.requirements : Kind → List Requirement
  | .create | .delete | .overwrite => [.file]
  | .rename => [.source, .destination]
  | .edit => [.file, .search]

/-- The key of the member that may be missing, for the kinds that have one. -/
def Kind.optionalKey? : Kind → Option Text
  | .create | .overwrite => some contentKey
  | .edit => some replaceKey
  | .delete | .rename => none

/-- The keys of the record of an operation of a kind. -/
def Kind.keys (kind : Kind) : List Text :=
  typeKey :: kind.requirements.map Requirement.key ++ kind.optionalKey?.toList

theorem Kind.nodup_keys (kind : Kind) : kind.keys.Nodup := by cases kind <;> decide

theorem Kind.word_inj {kind kind' : Kind} (h : kind.word = kind'.word) : kind = kind' := by
  have hword := congrArg (fun word => ofValue? (.text word)) h
  simpa only [ofValue?_word, Option.some.injEq] using hword

variable {kind : Kind} {members kept : List (Text × Value)} {op : Operation Value}
variable {f : RecordFault} {α : Type} {isEmpty : α → Bool}

/-- The members of an object make a record of an operation of a kind: they name the kind, and none
of its required fields is missing or empty. -/
structure Kind.IsRecord (kind : Kind) (members : List (Text × Value)) : Prop where
  type : Value.memberOf typeKey members = some (.text kind.word)
  filled : ∀ r ∈ kind.requirements,
    ∃ v, Value.memberOf r.key members = some v ∧ v.isEmpty = false

/-- What stands under a key in the members restricted to the fields of a kind. An optional field that
is missing is the empty text. -/
def Kind.restricted (kind : Kind) (members : List (Text × Value)) (key : Text) : Option Value :=
  if kind.optionalKey? = some key then some ((Value.memberOf key members).getD (.text []))
  else if key ∈ kind.keys then Value.memberOf key members
  else none

theorem Kind.restricted_of_not_mem {key : Text} (h : key ∉ kind.keys) :
    kind.restricted members key = none := by
  have hoptional : kind.optionalKey? ≠ some key := by
    intro he
    exact h (List.mem_append_right _ (by rw [he]; exact List.mem_singleton_self key))
  rw [restricted, if_neg hoptional, if_neg h]

/-- What keeps the members of an object from being a record of an operation: they name no kind, or
a required field of the kind that they name is missing or empty. -/
inductive IsFault (members : List (Text × Value)) : RecordFault → Prop
  | unknownKind (unnamed : ∀ kind : Kind, Value.memberOf typeKey members ≠ some (.text kind.word)) :
      IsFault members (.unknownKind ((Value.memberOf typeKey members).getD .null))
  | missingField {kind : Kind} {r : Requirement}
      (type : Value.memberOf typeKey members = some (.text kind.word))
      (required : r ∈ kind.requirements) (missing : Value.memberOf r.key members = none) :
      IsFault members (.missingField kind r.key)
  | emptyField {kind : Kind} {r : Requirement} {v : Value}
      (type : Value.memberOf typeKey members = some (.text kind.word))
      (required : r ∈ kind.requirements) (given : Value.memberOf r.key members = some v)
      (empty : v.isEmpty) : IsFault members (.emptyField kind r)

namespace IsFault

theorem isMalformed (h : IsFault members f) : (Failure.record f).isMalformed := by
  cases h <;> rfl

theorem not_isRecord (h : IsFault members f) (kind : Kind) : ¬ kind.IsRecord members := by
  intro hr
  have same {kind' : Kind} (htype : Value.memberOf typeKey members = some (.text kind'.word)) :
      kind' = kind :=
    Kind.word_inj (Value.text.inj (Option.some.inj (htype.symm.trans hr.type)))
  cases h with
  | unknownKind unnamed => exact unnamed kind hr.type
  | missingField type required missing =>
    obtain rfl := same type
    obtain ⟨v, hv, -⟩ := hr.filled _ required
    exact nomatch missing.symm.trans hv
  | emptyField type required given empty =>
    obtain rfl := same type
    obtain ⟨v, hv, hfilled⟩ := hr.filled _ required
    obtain rfl := Option.some.inj (given.symm.trans hv)
    rw [hfilled] at empty
    exact nomatch empty

end IsFault

/-! ## Reading the members -/

/-- An operation is the one of its kind with the given members. -/
inductive IsReadFrom (members : List (Text × Value)) : Operation Value → Prop
  | create {file : Value} (file_eq : Value.memberOf fileKey members = some file) :
      IsReadFrom members (.create file ((Value.memberOf contentKey members).getD (.text [])))
  | delete {file : Value} (file_eq : Value.memberOf fileKey members = some file) :
      IsReadFrom members (.delete file)
  | rename {source target : Value} (source_eq : Value.memberOf fromKey members = some source)
      (target_eq : Value.memberOf toKey members = some target) :
      IsReadFrom members (.rename source target)
  | edit {file search : Value} (file_eq : Value.memberOf fileKey members = some file)
      (search_eq : Value.memberOf searchKey members = some search) :
      IsReadFrom members (.edit file search ((Value.memberOf replaceKey members).getD (.text [])))
  | overwrite {file : Value} (file_eq : Value.memberOf fileKey members = some file) :
      IsReadFrom members (.overwrite file ((Value.memberOf contentKey members).getD (.text [])))

/-- The members lack a required field of a kind, or make an operation of it. -/
theorem ofMembers_cases (kind : Kind) (members : List (Text × Value)) :
    (∃ r ∈ kind.requirements, Value.memberOf r.key members = none ∧
      ofMembers kind members = .error (.missingField kind r.key)) ∨
    ∃ op, op.kind = kind ∧ IsReadFrom members op ∧ ofMembers kind members = .ok op := by
  cases kind with
  | create =>
    rcases hf : Value.memberOf fileKey members with _ | file
    · exact .inl ⟨.file, .head _, hf, by simp only [ofMembers, hf]; rfl⟩
    · exact .inr ⟨_, rfl, .create hf, by simp only [ofMembers, hf]; rfl⟩
  | delete =>
    rcases hf : Value.memberOf fileKey members with _ | file
    · exact .inl ⟨.file, .head _, hf, by simp only [ofMembers, hf]; rfl⟩
    · exact .inr ⟨_, rfl, .delete hf, by simp only [ofMembers, hf]; rfl⟩
  | rename =>
    rcases hs : Value.memberOf fromKey members with _ | source
    · exact .inl ⟨.source, .head _, hs, by simp only [ofMembers, hs]; rfl⟩
    rcases ht : Value.memberOf toKey members with _ | target
    · exact .inl ⟨.destination, .tail _ (.head _), ht, by simp only [ofMembers, hs, ht]; rfl⟩
    · exact .inr ⟨_, rfl, .rename hs ht, by simp only [ofMembers, hs, ht]; rfl⟩
  | edit =>
    rcases hf : Value.memberOf fileKey members with _ | file
    · exact .inl ⟨.file, .head _, hf, by simp only [ofMembers, hf]; rfl⟩
    rcases hs : Value.memberOf searchKey members with _ | search
    · exact .inl ⟨.search, .tail _ (.head _), hs, by simp only [ofMembers, hf, hs]; rfl⟩
    · exact .inr ⟨_, rfl, .edit hf hs, by simp only [ofMembers, hf, hs]; rfl⟩
  | overwrite =>
    rcases hf : Value.memberOf fileKey members with _ | file
    · exact .inl ⟨.file, .head _, hf, by simp only [ofMembers, hf]; rfl⟩
    · exact .inr ⟨_, rfl, .overwrite hf, by simp only [ofMembers, hf]; rfl⟩

/-- A kind is named by its word, and by nothing else. -/
theorem Kind.ofValue?_eq_some_iff {v : Value} : ofValue? v = some kind ↔ v = .text kind.word := by
  constructor
  · intro h
    cases v with
    | text t =>
      have hword : kind.word = t := by simpa using List.find?_some h
      rw [hword]
    | _ => exact nomatch h
  · rintro rfl
    exact ofValue?_word kind

theorem map_fst_required (op : Operation α) : op.required.map Prod.fst = op.kind.requirements := by
  cases op <;> rfl

theorem exists_of_lacking?_eq_some {op : Operation α} {r : Requirement}
    (h : op.lacking? isEmpty = some r) : ∃ v, (r, v) ∈ op.required ∧ isEmpty v := by
  obtain ⟨⟨r', v⟩, hv, hr⟩ := List.exists_of_findSome?_eq_some h
  dsimp only at hr
  split at hr
  · obtain rfl := Option.some.inj hr
    exact ⟨v, hv, ‹_›⟩
  · exact nomatch hr

theorem isEmpty_of_lacking?_eq_none {op : Operation α} (h : op.lacking? isEmpty = none)
    {r : Requirement} {v : α} (hv : (r, v) ∈ op.required) : isEmpty v = false := by
  simpa using List.findSome?_eq_none_iff.1 h (r, v) hv

namespace IsReadFrom

/-- The required fields of the operation stand under their keys. -/
theorem memberOf_of_mem_required (h : IsReadFrom members op) {r : Requirement} {v : Value}
    (hr : (r, v) ∈ op.required) : Value.memberOf r.key members = some v := by
  cases h with
  | create file_eq | delete file_eq | overwrite file_eq =>
    obtain ⟨rfl, rfl⟩ := Prod.mk.inj (List.mem_singleton.1 hr)
    exact file_eq
  | rename source_eq target_eq =>
    rcases List.mem_cons.1 hr with hr | hr
    · obtain ⟨rfl, rfl⟩ := Prod.mk.inj hr
      exact source_eq
    · obtain ⟨rfl, rfl⟩ := Prod.mk.inj (List.mem_singleton.1 hr)
      exact target_eq
  | edit file_eq search_eq =>
    rcases List.mem_cons.1 hr with hr | hr
    · obtain ⟨rfl, rfl⟩ := Prod.mk.inj hr
      exact file_eq
    · obtain ⟨rfl, rfl⟩ := Prod.mk.inj (List.mem_singleton.1 hr)
      exact search_eq

/-- An operation whose required fields are filled was read from a record of its kind. -/
theorem isRecord (h : IsReadFrom members op)
    (htype : Value.memberOf typeKey members = some (.text op.kind.word))
    (hfilled : op.lacking? Value.isEmpty = none) : op.kind.IsRecord members where
  type := htype
  filled r hr := by
    rw [← map_fst_required] at hr
    obtain ⟨⟨r, v⟩, hv, rfl⟩ := List.mem_map.1 hr
    exact ⟨v, h.memberOf_of_mem_required hv, isEmpty_of_lacking?_eq_none hfilled hv⟩

end IsReadFrom

/-- **The members of an object have a fault, or an operation with filled fields is read from them.** -/
theorem ofRecord_cases (members : List (Text × Value)) :
    (∃ f, IsFault members f ∧ ofRecord (.object members) = .error f) ∨
    ∃ op, Value.memberOf typeKey members = some (.text op.kind.word) ∧ IsReadFrom members op ∧
      op.lacking? Value.isEmpty = none ∧ ofRecord (.object members) = .ok op := by
  rw [ofRecord]
  rcases hkind : Kind.ofValue? ((Value.memberOf typeKey members).getD .null) with _ | kind
  · refine .inl ⟨_, .unknownKind fun kind htype => ?_, rfl⟩
    rw [htype, Option.getD_some, Kind.ofValue?_word] at hkind
    cases hkind
  have htype : Value.memberOf typeKey members = some (.text kind.word) := by
    have hgiven := Kind.ofValue?_eq_some_iff.1 hkind
    rcases hm : Value.memberOf typeKey members with _ | v
    · rw [hm] at hgiven
      cases hgiven
    · rw [hm] at hgiven
      rw [← hgiven]
      rfl
  rcases ofMembers_cases kind members with ⟨r, hr, hmissing, ho⟩ | ⟨op, rfl, hread, ho⟩
  · exact .inl ⟨_, .missingField htype hr hmissing, by simp only [ho]; rfl⟩
  · rcases hlacking : op.lacking? Value.isEmpty with _ | r
    · exact .inr ⟨op, htype, hread, hlacking, by simp only [ho, bind, Except.bind, hlacking]; rfl⟩
    · obtain ⟨v, hv, hempty⟩ := exists_of_lacking?_eq_some hlacking
      have hr : r ∈ op.kind.requirements :=
        map_fst_required op ▸ List.mem_map.2 ⟨(r, v), hv, rfl⟩
      exact .inl ⟨_, .emptyField htype hr (hread.memberOf_of_mem_required hv) hempty,
        by simp only [ho, bind, Except.bind, hlacking]⟩

/-! ## Writing what has been read -/

theorem exists_toRecord (op : Operation Value) :
    ∃ kept, op.toRecord = .object kept ∧ kept.map Prod.fst = op.kind.keys := by
  cases op <;> exact ⟨_, rfl, rfl⟩

/-- Every member of the record is the one that the restricted members have under its key. -/
theorem IsReadFrom.restricted_of_mem (h : IsReadFrom members op)
    (htype : Value.memberOf typeKey members = some (.text op.kind.word))
    (hkept : op.toRecord = .object kept) {m : Text × Value} (hm : m ∈ kept) :
    op.kind.restricted members m.1 = some m.2 := by
  obtain rfl := Value.object.inj hkept
  cases h with
  | create file_eq | overwrite file_eq =>
    simp only [List.mem_cons, List.not_mem_nil, or_false] at hm
    rcases hm with rfl | rfl | rfl
    · exact htype
    · exact file_eq
    · rfl
  | delete file_eq =>
    simp only [List.mem_cons, List.not_mem_nil, or_false] at hm
    rcases hm with rfl | rfl
    · exact htype
    · exact file_eq
  | rename source_eq target_eq =>
    simp only [List.mem_cons, List.not_mem_nil, or_false] at hm
    rcases hm with rfl | rfl | rfl
    · exact htype
    · exact source_eq
    · exact target_eq
  | edit file_eq search_eq =>
    simp only [List.mem_cons, List.not_mem_nil, or_false] at hm
    rcases hm with rfl | rfl | rfl | rfl
    · exact htype
    · exact file_eq
    · exact search_eq
    · rfl

/-- **The record of what was read is what was read from, restricted to the fields of the kind.** -/
theorem IsReadFrom.exists_restricted (h : IsReadFrom members op)
    (htype : Value.memberOf typeKey members = some (.text op.kind.word)) :
    ∃ kept, op.toRecord = .object kept ∧ (kept.map Prod.fst).Nodup ∧
      ∀ key, Value.memberOf key kept = op.kind.restricted members key := by
  obtain ⟨kept, hkept, hkeys⟩ := exists_toRecord op
  refine ⟨kept, hkept, hkeys ▸ op.kind.nodup_keys, fun key => ?_⟩
  by_cases hkey : key ∈ kept.map Prod.fst
  · obtain ⟨v, hv, hfound⟩ := Value.exists_memberOf_of_mem hkey
    rw [hfound, h.restricted_of_mem htype hkept hv]
  · rw [Value.memberOf_of_not_mem hkey, Kind.restricted_of_not_mem (hkeys ▸ hkey)]

/-! ## Records -/

/-- **Reading accepts exactly the records of operations.** An object is read as an operation if it
names a kind and has the required fields of the kind, none of them empty, and is refused as malformed
otherwise, for a fault that it has. What is read can be made, and its record is the object restricted
to the fields of its kind, with a missing optional field written as the empty text. Every operation
that can be made is read from its record. -/
theorem ofRecord_object (members : List (Text × Value)) :
    ((∃ op, ofRecord (.object members) = .ok op) ↔ ∃ kind : Kind, kind.IsRecord members) ∧
      (∀ f, ofRecord (.object members) = .error f →
        IsFault members f ∧ (Failure.record f).isMalformed) ∧
      (∀ op, ofRecord (.object members) = .ok op → op.lacking? Value.isEmpty = none ∧
        ∃ kept, op.toRecord = .object kept ∧ (kept.map Prod.fst).Nodup ∧
          ∀ key, Value.memberOf key kept = op.kind.restricted members key) ∧
      ∀ op : Operation Value, op.lacking? Value.isEmpty = none → ofRecord op.toRecord = .ok op := by
  have hback : ∀ op : Operation Value, op.lacking? Value.isEmpty = none →
      ofRecord op.toRecord = .ok op := fun op => ofRecord_toRecord
  rcases ofRecord_cases members with ⟨f, hfault, ho⟩ | ⟨op, htype, hread, hfilled, ho⟩
  · rw [ho]
    refine ⟨⟨nofun, ?_⟩, ?_, nofun, hback⟩
    · rintro ⟨kind, hrecord⟩
      exact absurd hrecord (hfault.not_isRecord kind)
    · rintro _ ⟨⟩
      exact ⟨hfault, hfault.isMalformed⟩
  · rw [ho]
    refine ⟨⟨fun _ => ⟨op.kind, hread.isRecord htype hfilled⟩, fun _ => ⟨op, rfl⟩⟩, nofun, ?_, hback⟩
    rintro _ ⟨⟩
    exact ⟨hfilled, hread.exists_restricted htype⟩

/-- The members of an edit, written by hand: out of order, with one that is not known, a list for the
file and a number for the search text, and without a replacement. -/
def untidyMembers : List (Text × Value) :=
  [(searchKey, .int 5), ("note", .null), (fileKey, .list [.null]), (typeKey, .text "search-replace")]

/-- They are read as an edit, and its record has the fields of an edit and no others. Without the
file they are refused. -/
theorem ofRecord_object_untidyMembers :
    let lacking := untidyMembers.filter fun m => m.1 ≠ fileKey
    Kind.edit.IsRecord untidyMembers ∧
      (∃ op kept, ofRecord (.object untidyMembers) = .ok op ∧ op.toRecord = .object kept ∧
        (∀ key, Value.memberOf key kept = op.kind.restricted untidyMembers key) ∧
        Value.memberOf searchKey kept = some (.int 5) ∧ Value.memberOf "note" kept = none ∧
        Value.memberOf replaceKey kept = some (.text []) ∧ ofRecord op.toRecord = .ok op) ∧
      ofRecord (.object lacking) = .error (.missingField .edit fileKey) ∧
      IsFault lacking (.missingField .edit fileKey) := by
  intro lacking
  have hrecord : Kind.edit.IsRecord untidyMembers := by
    refine ⟨rfl, fun r hr => ?_⟩
    rcases List.mem_cons.1 hr with rfl | hr
    · exact ⟨.list [.null], rfl, rfl⟩
    · obtain rfl := List.mem_singleton.1 hr
      exact ⟨.int 5, rfl, rfl⟩
  obtain ⟨haccepts, -, hread, hback⟩ := ofRecord_object untidyMembers
  obtain ⟨op, ho⟩ := haccepts.2 ⟨.edit, hrecord⟩
  obtain ⟨hfilled, kept, hkept, -, hrestricted⟩ := hread op ho
  have hkind : op.kind = .edit := by
    obtain rfl : Operation.edit (.list [.null]) (.int 5) (.text []) = op := Except.ok.inj ho
    rfl
  have hlacking : ofRecord (.object lacking) = .error (.missingField .edit fileKey) := rfl
  refine ⟨hrecord, ⟨op, kept, ho, hkept, hrestricted, ?_, ?_, ?_, hback op hfilled⟩, hlacking,
    ((ofRecord_object lacking).2.1 _ hlacking).1⟩
  · rw [hrestricted, hkind]
    rfl
  · rw [hrestricted, hkind]
    rfl
  · rw [hrestricted, hkind]
    rfl

end Operation

end ReplyLedger
