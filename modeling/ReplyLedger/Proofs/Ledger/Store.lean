import ReplyLedger.Proofs.Host.Directory
import ReplyLedger.Proofs.Task.RoundTrip
import ReplyLedger.Proofs.Text.Strip

/-!
# The store of a ledger

The state directory of a ledger holds the directory of the records and the pointer. It is in order
(`Store`) if every entry among the records is the record of a task, under the name for its id.
Then saving a task sets its record and keeps the store in order (`outcome_save`, `Store.save`), a task
whose record is there is found by its id (`outcome_find_of_recorded`) and nothing else is
(`recorded_of_find`), and there is one record under an id (`eq_of_recorded`).
-/

namespace ReplyLedger

open FileSystem Json

/-! ## Ids -/

/-- The digits that ids are made of. -/
def hexDigits : Text := "0123456789abcdef"

/-- Whether a text can be an id that was handed out: it is not too long, and made of digits. -/
structure IsId (id : Text) : Prop where
  length_le : id.length ≤ Action.idLength
  mem_hexDigits : ∀ c ∈ id, c ∈ hexDigits

theorem mem_hexDigits_of_mem_toDigits {n : Nat} {c : Char} (h : c ∈ Nat.toDigits 16 n) :
    c ∈ hexDigits := Text.forall_mem_toDigits (by decide) (by decide) n c h

/-- The beginning of a made-up number is an id. -/
theorem isId_ofHexPadded (n : Nat) :
    IsId ((Text.ofHexPadded Action.idLength n).take Action.idLength) := by
  refine ⟨List.length_take_le _ _, fun c hc => ?_⟩
  rcases List.mem_append.1 (List.mem_of_mem_take hc) with hc | hc
  · rw [List.eq_of_mem_replicate hc]
    decide
  · exact mem_hexDigits_of_mem_toDigits hc

namespace IsId

variable {id : Text}

theorem not_mem (h : IsId id) {c : Char} (hc : c ∉ hexDigits) : c ∉ id :=
  fun hm => hc (h.mem_hexDigits c hm)

/-- An id is read from the line that holds it. -/
theorem strip_line (h : IsId id) : Text.strip (id ++ ['\n']) = id := by
  have hblank : hexDigits.all fun c => !Text.isBlank c := by decide
  rw [Text.strip_append_right id (by decide)]
  refine Text.strip_of_no_blank fun c hc => ?_
  simpa using List.all_eq_true.1 hblank c (h.mem_hexDigits c hc)

end IsId

namespace Ledger

/-- The name of the record file of a task. -/
def recordName (id : Text) : Text := id ++ recordEnding

theorem recordName_inj {id id' : Text} (h : recordName id = recordName id') : id = id' :=
  List.append_cancel_right h

theorem length_recordName (id : Text) : (recordName id).length = id.length + 5 := by
  rw [recordName, List.length_append]
  rfl

theorem not_mem_recordName {id : Text} {c : Char} (hid : c ∉ id) (hc : c ∉ recordEnding) :
    c ∉ recordName id := by
  intro h
  rcases List.mem_append.1 h with h | h
  · exact hid h
  · exact hc h

theorem recordName_ne_of_length_lt (id : Text) {s : Text} (h : s.length < 5) :
    recordName id ≠ s := by
  rintro rfl
  rw [length_recordName] at h
  omega

theorem isPlain_recordName {id : Text} (hs : '/' ∉ id) (hn : hasNul id = false) :
    isPlain (recordName id) := by
  have hnul : '\x00' ∉ id := by
    rw [hasNul, ← Bool.not_eq_true, List.contains_iff_mem] at hn
    exact hn
  refine isPlain_iff.2 ⟨recordName_ne_of_length_lt id (by decide),
    recordName_ne_of_length_lt id (by decide), recordName_ne_of_length_lt id (by decide),
    not_mem_recordName hs (by decide), ?_⟩
  rw [hasNul, ← Bool.not_eq_true, List.contains_iff_mem]
  exact not_mem_recordName hnul (by decide)

theorem isName_recordName {id : Text} (h : IsId id) : isName (recordName id) := by
  have hp : isPlain (recordName id) := by
    refine isPlain_recordName (h.not_mem (by decide)) ?_
    rw [hasNul, ← Bool.not_eq_true, List.contains_iff_mem]
    exact h.not_mem (by decide)
  have hlength : (recordName id).length ≤ 17 := by
    have hid := h.length_le
    rw [Action.idLength] at hid
    rw [length_recordName]
    omega
  have hbytes := Utf8.length_encode_le (recordName id)
  have hshort : isTooLong (recordName id) = false := by
    rw [isTooLong, decide_eq_false_iff_not, maxNameLength]
    omega
  rw [isName, hp, hshort]
  rfl

/-- The record of a task is a file in the directory of the records. -/
theorem recordPath_eq (l : Ledger) {id : Text} (hs : '/' ∉ id) :
    l.recordPath id = l.tasksDirectory.child (recordName id) := by
  have hslash : '/' ∉ recordName id := not_mem_recordName hs (by decide)
  have h0 : recordName id ≠ [] := recordName_ne_of_length_lt id (by decide)
  have h1 : recordName id ≠ ['.'] := recordName_ne_of_length_lt id (by decide)
  have hanchor : FilePath.anchorOf (recordName id) = .relative := by
    obtain ⟨c, t, ht⟩ := List.exists_cons_of_ne_nil h0
    have hc : c ≠ '/' := by
      rintro rfl
      exact hslash (by simp [ht])
    rw [FilePath.anchorOf, ht, List.takeWhile_cons_of_neg (by simpa using hc)]
    rfl
  have hnames : FilePath.namesOf (recordName id) = [recordName id] := by
    rw [FilePath.namesOf, Text.segments_of_not_mem hslash, List.filter_cons_of_pos (by simp [h0, h1]),
      List.filter_nil]
  have hpath : FilePath.ofText (recordName id) = ⟨.relative, [recordName id]⟩ := by
    rw [FilePath.ofText, hanchor, hnames]
  change l.tasksDirectory.join (FilePath.ofText (recordName id)) = _
  rw [hpath]
  rfl

end Ledger

/-! ## The store -/

/-- Whether a task can be kept: its id is one that was handed out, and its fields are texts. -/
structure Task.IsStorable (t : Task) : Prop where
  isId : IsId t.id
  isTextual : t.IsTextual

namespace Ledger

/-- The name of the directory of the records in the state directory. -/
def tasksName : Text := "tasks"

/-- The name of the pointer in the state directory. -/
def pointerName : Text := "current"

/-- The bytes of the record of a task. -/
def recordBytes (t : Task) : Bytes := Utf8.encode t.toRecord.document

/-- Whether the record of a task is in the state directory `d`. -/
def Recorded (fs : FileSystem) (d : Location) (t : Task) : Prop :=
  fs.entryAt (d ++ [tasksName] ++ [recordName t.id]) = some (.file (recordBytes t))

/-- A state directory in order: every entry among the records is the record of a task. -/
structure Store (fs : FileSystem) (cwd : CurrentDirectory) (state : FilePath) (d : Location) :
    Prop where
  leads : fs.Leads cwd state d
  tasks : fs.IsDirectory (d ++ [tasksName])
  records : ∀ name e, fs.entryAt (d ++ [tasksName] ++ [name]) = some e →
    ∃ t : Task, t.IsStorable ∧ name = recordName t.id ∧ e = .file (recordBytes t)

variable {h : Host} {l : Ledger} {state : FilePath} {d : Location} {t : Task}

theorem Store.leads_tasks {fs : FileSystem} {cwd : CurrentDirectory} (hs : Store fs cwd state d) :
    fs.Leads cwd (state.child tasksName) (d ++ [tasksName]) := hs.leads.child hs.tasks

/-! ### Saving -/

/-- The host after the record of a task has been written. -/
def withRecord (h : Host) (d : Location) (t : Task) : Host :=
  { h with files := h.files.put (d ++ [tasksName] ++ [recordName t.id]) (.file (recordBytes t)) }

/-- A task is saved where its record is a file or nothing is there yet, whatever the other records
are. -/
theorem outcome_save_of_leads (hleads : h.files.Leads h.cwd (state.child tasksName) (d ++ [tasksName]))
    (hl : l.tasksDirectory = state.child tasksName) (hid : IsId t.id)
    (he : ∀ e, h.files.entryAt (d ++ [tasksName] ++ [recordName t.id]) = some e →
      ∃ bytes, e = .file bytes) : outcome (l.save t) h = (.ok (), withRecord h d t) := by
  rw [save, recordPath_eq l (hid.not_mem (by decide)), hl]
  exact Action.outcome_writeText hleads (isName_recordName hid) he _

theorem outcome_save (hs : Store h.files h.cwd state d)
    (hl : l.tasksDirectory = state.child tasksName) (ht : t.IsStorable) :
    outcome (l.save t) h = (.ok (), withRecord h d t) := by
  refine outcome_save_of_leads hs.leads_tasks hl ht.isId fun e he => ?_
  obtain ⟨u, -, -, rfl⟩ := hs.records _ e he
  exact ⟨_, rfl⟩

theorem accepts_record (hs : Store h.files h.cwd state d) (ht : t.IsStorable) :
    h.files.Accepts (d ++ [tasksName] ++ [recordName t.id]) := by
  rcases he : h.files.entryAt (d ++ [tasksName] ++ [recordName t.id]) with _ | e
  · exact accepts_of_vacant hs.tasks (isName_recordName ht.isId) he
  · obtain ⟨u, -, -, rfl⟩ := hs.records _ e he
    exact accepts_of_entryAt he (by simp)

theorem entryAt_withRecord (hs : Store h.files h.cwd state d) (ht : t.IsStorable) (r : Location) :
    (withRecord h d t).files.entryAt r =
      if r = d ++ [tasksName] ++ [recordName t.id] then some (.file (recordBytes t))
      else h.files.entryAt r :=
  entryAt_put (accepts_record hs ht) _ r

/-- Saving a task keeps the store in order. -/
theorem Store.save (hs : Store h.files h.cwd state d) (ht : t.IsStorable) :
    Store (withRecord h d t).files h.cwd state d := by
  have hk : h.files.Keeps (withRecord h d t).files := by
    refine keeps_put fun e he => ?_
    obtain ⟨u, -, -, rfl⟩ := hs.records _ e he
    exact ⟨_, rfl⟩
  refine ⟨hs.leads.keep hk, hk _ _ hs.tasks (by simp), fun name e he => ?_⟩
  rw [entryAt_withRecord hs ht] at he
  split at he
  · rename_i hn
    obtain rfl : name = recordName t.id := by simpa using hn
    exact ⟨t, ht, rfl, (Option.some.inj he).symm⟩
  · exact hs.records name e he

theorem recorded_withRecord (hs : Store h.files h.cwd state d) (ht : t.IsStorable) :
    Recorded (withRecord h d t).files d t := by
  rw [Recorded, entryAt_withRecord hs ht, if_pos rfl]

/-! ### Outside of the store -/

/-- A location of the store: the pointer, the directory of the records, or below that. -/
def InStore (d r : Location) : Prop := r = d ++ [pointerName] ∨ d ++ [tasksName] <+: r

/-- Two file systems that are the same outside of the store. -/
def SameOutside (d : Location) (before after : FileSystem) : Prop :=
  ∀ r, ¬ InStore d r → after.entryAt r = before.entryAt r

theorem SameOutside.refl (d : Location) (fs : FileSystem) : SameOutside d fs fs := fun _ _ => rfl

theorem SameOutside.trans {fs gs hs : FileSystem} (h : SameOutside d fs gs)
    (h' : SameOutside d gs hs) : SameOutside d fs hs :=
  fun r hr => (h' r hr).trans (h r hr)

theorem sameOutside_withRecord (h : Host) (d : Location) (t : Task) :
    SameOutside d h.files (withRecord h d t).files :=
  fun _ hr => entryAt_put_of_ne _ fun he => hr (.inr ⟨[recordName t.id], he.symm⟩)

/-! ### Finding -/

theorem outcome_load (hs : Store h.files h.cwd state d) (ht : t.IsStorable)
    (hr : Recorded h.files d t) :
    outcome (load ((state.child tasksName).child (recordName t.id))) h = (.ok t, h) := by
  rw [load, outcome_bind_of_ok (Action.outcome_readText hs.leads_tasks hr),
    parseTask_document ht.isTextual]
  rfl

/-- **A task whose record is there is found by its id.** -/
theorem outcome_find_of_recorded (hs : Store h.files h.cwd state d)
    (hl : l.tasksDirectory = state.child tasksName) (ht : t.IsStorable)
    (hr : Recorded h.files d t) : outcome (l.find t.id) h = (.ok t, h) := by
  have hpath := recordPath_eq l (ht.isId.not_mem (c := '/') (by decide))
  rw [hl] at hpath
  rw [find, hpath, outcome_bind_of_ok (Action.outcome_isFile hs.leads_tasks hr), if_pos rfl,
    outcome_load hs ht hr]

/-- There is one record under an id. -/
theorem eq_of_recorded {u : Task} (hs : Store h.files h.cwd state d) (ht : t.IsStorable)
    (htr : Recorded h.files d t) (hu : u.IsStorable) (hur : Recorded h.files d u)
    (hid : t.id = u.id) : t = u := by
  have hfind : outcome (find ⟨state.child tasksName, none, .noting [] [], none⟩ t.id) h = (.ok t, h) :=
    outcome_find_of_recorded hs rfl ht htr
  rw [hid, outcome_find_of_recorded hs rfl hu hur] at hfind
  exact (Except.ok.inj (Prod.mk.inj hfind).1).symm

theorem looks_load (path : FilePath) : Action.Looks (load path) := by
  refine (Action.looks_readText _).bind fun text => ?_
  split
  · exact Action.looks_pure _
  · exact Action.looks_fail _

theorem looks_find (id : Text) : Action.Looks (l.find id) := by
  refine (Action.looks_isFile _).bind fun there => ?_
  split
  · exact looks_load _
  · exact Action.looks_fail _

theorem hasNul_recordName {id : Text} (h : hasNul id) : hasNul (recordName id) := by
  rw [hasNul, List.contains_iff_mem] at h ⊢
  exact List.mem_append_left _ h

/-- Without a record under the name for an id, no task is found: it is unknown, unless the name is
too long for any file. -/
theorem outcome_find_of_vacant (hs : Store h.files h.cwd state d)
    (hl : l.tasksDirectory = state.child tasksName) {id : Text} (hid : '/' ∉ id)
    (he : h.files.entryAt (d ++ [tasksName] ++ [recordName id]) = none) :
    outcome (l.find id) h =
      (.error (if !hasNul id && isTooLong (recordName id) then
        .system .nameTooLong (l.recordPath id).text else .unknownTask id), h) := by
  have hpath := recordPath_eq l hid
  rw [hl] at hpath
  by_cases hnul : hasNul id
  · have htext := FilePath.hasNul_text_child (p := state.child tasksName) (hasNul_recordName hnul)
    rw [find, hpath, Action.isFile, bind_assoc,
      outcome_bind_of_ok (Action.outcome_status?_of_hasNul htext)]
    simp [hnul]
  · have hp := isPlain_recordName hid (by simpa using hnul)
    by_cases hlong : isTooLong (recordName id)
    · have hstatus := Action.outcome_status?_tooLong hs.leads_tasks hp hlong
      rw [find, hpath, Action.isFile, bind_assoc, outcome_bind_of_error hstatus]
      simp [hnul, hlong]
    · have hn : isName (recordName id) := by simp [isName, hp, hlong]
      rw [find, hpath, outcome_bind_of_ok (Action.outcome_isFile_vacant hs.leads_tasks hn he),
        if_neg Bool.false_ne_true]
      simp [hlong]

/-- What is found by an id is a task with the id whose record is there. -/
theorem recorded_of_find (hs : Store h.files h.cwd state d)
    (hl : l.tasksDirectory = state.child tasksName) {id : Text} (hid : '/' ∉ id)
    (hf : (outcome (l.find id) h).1 = .ok t) :
    t.IsStorable ∧ t.id = id ∧ Recorded h.files d t := by
  rcases he : h.files.entryAt (d ++ [tasksName] ++ [recordName id]) with _ | e
  · rw [outcome_find_of_vacant hs hl hid he] at hf
    simp at hf
  · obtain ⟨u, hu, hname, rfl⟩ := hs.records _ e he
    obtain rfl := recordName_inj hname
    rw [outcome_find_of_recorded hs hl hu he] at hf
    obtain rfl := Except.ok.inj hf
    exact ⟨hu, rfl, he⟩

/-- Looking for a task changes nothing, and finds one whose record is there, or none. -/
theorem Store.find_cases (hs : Store h.files h.cwd state d)
    (hl : l.tasksDirectory = state.child tasksName) {id : Text} (hid : '/' ∉ id) :
    (∃ f, outcome (l.find id) h = (.error f, h)) ∨
      ∃ t, outcome (l.find id) h = (.ok t, h) ∧ t.IsStorable ∧ Recorded h.files d t := by
  have hlooks := looks_find (l := l) id h
  rcases hf : outcome (l.find id) h with ⟨f | t, after⟩
  · rw [hf] at hlooks
    obtain rfl : after = h := hlooks
    exact .inl ⟨f, rfl⟩
  · have hfound := recorded_of_find (t := t) hs hl hid (by rw [hf])
    rw [hf] at hlooks
    obtain rfl : after = h := hlooks
    exact .inr ⟨t, rfl, hfound.1, hfound.2.2⟩

end Ledger

end ReplyLedger
