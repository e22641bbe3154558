import ReplyLedger.Proofs.Ledger.Skipping
import ReplyLedger.Proofs.Ledger.Runs

/-!
# Ids that lead out of the store

An id is pasted into the path of a record as it is. An id with slashes in it is a path of its own, and
if that leads to a file, the lookup reads the file, whatever it is (`Ledger.Strays`). Every other id
that is no name of a record is missed: it is unknown, or too long to be looked up
(`outcome_find_of_not_isFile`), and a step that only looks it up changes nothing
(`Session.LooksInside.cases`).
-/

namespace ReplyLedger

open FileSystem Ledger LedgerAction

/-! ## Why a path is not found -/

/-- The errors that following a path can end with. -/
def FileSystem.lookupErrors : List Errno := [.noEntry, .notDirectory, .nameTooLong, .tooManyLinks]

namespace FileSystem

variable {fs : FileSystem} {cwd : CurrentDirectory} {path : Text} {error : Errno}

theorem mem_lookupErrors_of_advance {here : Location} {segments : List Text}
    (h : fs.advance .followed here segments = .refused error) : error ∈ lookupErrors := by
  induction segments generalizing here with
  | nil => cases h
  | cons s rest ih =>
    rw [advance] at h
    split at h
    · exact ih h
    · split at h
      · exact ih h
      · rw [if_neg (by simp)] at h
        split at h
        · obtain rfl := Progress.refused.inj h
          decide
        · split at h
          · split at h
            · cases h
            · obtain rfl := Progress.refused.inj h
              decide
          · exact ih h
          · split at h
            · cases h
            · obtain rfl := Progress.refused.inj h
              decide
          · split at h <;> cases h

theorem mem_lookupErrors_of_walk {links : Nat} {here : Location} {segments : List Text}
    (h : fs.walk .followed links here segments = .error error) : error ∈ lookupErrors := by
  induction links generalizing here segments with
  | zero =>
    rw [walk] at h
    split at h
    · cases h
    · rename_i hadvance
      obtain rfl := Except.error.inj h
      exact mem_lookupErrors_of_advance hadvance
    · obtain rfl := Except.error.inj h
      decide
  | succ links ih =>
    rw [walk] at h
    split at h
    · cases h
    · rename_i hadvance
      obtain rfl := Except.error.inj h
      exact mem_lookupErrors_of_advance hadvance
    · exact ih h

theorem mem_lookupErrors_of_climb {between : Nat} {segments : List Text}
    (h : climb .followed between segments = .refused error) : error ∈ lookupErrors := by
  induction segments generalizing between with
  | nil => cases h
  | cons s rest ih =>
    unfold climb at h
    split at h
    · exact ih h
    · split at h
      · split at h
        · cases h
        · exact ih h
      · rw [if_neg (by simp)] at h
        obtain rfl := Climb.refused.inj h
        decide

theorem mem_lookupErrors_of_find (h : fs.find cwd .followed path = .error error) :
    error ∈ lookupErrors := by
  unfold find at h
  split at h
  · obtain rfl := Except.error.inj h
    decide
  · split at h
    · exact mem_lookupErrors_of_walk h
    · split at h
      · exact mem_lookupErrors_of_walk h
      · split at h
        · cases h
        · exact mem_lookupErrors_of_walk h
        · rename_i hclimb
          obtain rfl := Except.error.inj h
          exact mem_lookupErrors_of_climb hclimb

/-- **A path is not found for one of four reasons.** -/
theorem mem_lookupErrors_of_status (h : fs.status cwd path = .error error) :
    error ∈ lookupErrors := by
  rw [status] at h
  rcases hf : fs.find cwd .followed path with e | found
  · rw [hf] at h
    obtain rfl := Except.error.inj h
    exact mem_lookupErrors_of_find hf
  · rw [hf] at h
    cases found with
    | entry p e => cases h
    | removed => cases h
    | vacant directory name =>
      obtain rfl := Except.error.inj h
      decide

end FileSystem

/-- A name in the path is too long for the host to look it up. -/
def Host.FindsTooLong (h : Host) (path : Text) : Prop :=
  hasNul path = false ∧ h.files.status h.cwd path = .error .nameTooLong

instance (h : Host) (path : Text) : Decidable (h.FindsTooLong path) :=
  inferInstanceAs (Decidable (_ ∧ _))

namespace Action

variable {h : Host} {path : Text}

theorem outcome_isFile_of_findsTooLong (ht : h.FindsTooLong path) :
    outcome (isFile path) h = (.error (.system .nameTooLong path), h) := by
  have hstatus : outcome (status? path) h = (.error (.system .nameTooLong path), h) := by
    rw [status?, ht.1, if_neg Bool.false_ne_true, outcome_bind_of_ok (outcome_get h)]
    simp only [ht.2]
    rfl
  rw [isFile, outcome_bind_of_error hstatus]

/-- Where no name is too long, it is found out what is there, if anything is. -/
theorem exists_outcome_status? (ht : ¬ h.FindsTooLong path) :
    ∃ e, outcome (status? path) h = (.ok e, h) := by
  rcases hn : hasNul path with _ | _
  swap
  · exact ⟨none, outcome_status?_of_hasNul hn⟩
  rcases hs : h.files.status h.cwd path with error | e
  swap
  · exact ⟨some e, outcome_status?_of_status hn hs⟩
  have herror := mem_lookupErrors_of_status hs
  refine ⟨none, ?_⟩
  rw [status?, hn, if_neg Bool.false_ne_true, outcome_bind_of_ok (outcome_get h)]
  simp only [hs]
  simp only [lookupErrors, List.mem_cons, List.not_mem_nil, or_false] at herror
  rcases herror with rfl | rfl | rfl | rfl
  · rfl
  · rfl
  · exact absurd ⟨hn, hs⟩ ht
  · rfl

theorem exists_outcome_isFile (ht : ¬ h.FindsTooLong path) :
    ∃ there, outcome (isFile path) h = (.ok there, h) := by
  obtain ⟨e, he⟩ := exists_outcome_status? ht
  rw [isFile, outcome_bind_of_ok he]
  split <;> exact ⟨_, rfl⟩

/-- A path is one of a file if the host follows it to one. -/
theorem isFile_iff : (outcome (isFile path) h).1 = .ok true ↔
    hasNul path = false ∧ ∃ bytes, h.files.status h.cwd path = .ok (.file bytes) := by
  rcases hn : hasNul path with _ | _
  · rcases hs : h.files.status h.cwd path with error | e
    · have hno : (outcome (isFile path) h).1 ≠ .ok true := by
        rw [isFile, status?, hn, if_neg Bool.false_ne_true, bind_assoc,
          outcome_bind_of_ok (outcome_get h)]
        simp only [hs]
        cases error <;> (intro hf; cases hf)
      simp [hno]
    · rw [isFile, outcome_bind_of_ok (outcome_status?_of_status hn hs)]
      cases e with
      | file bytes => simp
      | directory => exact iff_of_false (by intro hf; cases hf) (by simp)
      | link target => exact iff_of_false (by intro hf; cases hf) (by simp)
  · rw [isFile, outcome_bind_of_ok (outcome_status?_of_hasNul hn)]
    exact iff_of_false (by intro hf; cases hf) (by simp)

end Action

/-! ## Looking up ids -/

namespace Ledger

variable {h : Host} {l : Ledger} {id : Text}

/-- Looking up the id takes a name in the path for too long. -/
def IsOverlong (l : Ledger) (h : Host) (id : Text) : Prop := h.FindsTooLong (l.recordPath id).text

instance (l : Ledger) (h : Host) (id : Text) : Decidable (l.IsOverlong h id) :=
  inferInstanceAs (Decidable (h.FindsTooLong _))

/-- The id is a path of several names, and leads to a file. -/
def Strays (l : Ledger) (h : Host) (id : Text) : Prop :=
  '/' ∈ id ∧ (outcome (Action.isFile (l.recordPath id).text) h).1 = .ok true

instance (l : Ledger) (h : Host) (id : Text) : Decidable (l.Strays h id) := by
  refine decidable_of_iff ('/' ∈ id ∧
    (outcome (Action.isFile (l.recordPath id).text) h).1.toOption = some true) ?_
  rw [Strays]
  rcases (outcome (Action.isFile (l.recordPath id).text) h).1 with f | there <;> simp [Except.toOption]

/-- The failure of a lookup that finds no file. -/
def missing (l : Ledger) (h : Host) (id : Text) : Failure :=
  if l.IsOverlong h id then .system .nameTooLong (l.recordPath id).text else .unknownTask id

theorem outcome_find_of_isFile
    (hf : (outcome (Action.isFile (l.recordPath id).text) h).1 = .ok true) :
    outcome (l.find id) h = (reading h.files h.cwd (l.recordPath id), h) := by
  have hlooks := Action.looks_isFile (l.recordPath id).text h
  have hfile : outcome (Action.isFile (l.recordPath id).text) h = (.ok true, h) :=
    Prod.ext hf hlooks
  rw [find, outcome_bind_of_ok hfile, if_pos rfl, outcome_load_eq]

/-- **Where there is no file, nothing is found**: the id is unknown, unless it is too long. -/
theorem outcome_find_of_not_isFile
    (hf : (outcome (Action.isFile (l.recordPath id).text) h).1 ≠ .ok true) :
    outcome (l.find id) h = (.error (l.missing h id), h) := by
  rw [find, missing]
  by_cases hlong : l.IsOverlong h id
  · rw [if_pos hlong, outcome_bind_of_error (Action.outcome_isFile_of_findsTooLong hlong)]
  · obtain ⟨there, hthere⟩ := Action.exists_outcome_isFile hlong
    rw [if_neg hlong, outcome_bind_of_ok hthere]
    cases there with
    | true => exact absurd (congrArg Prod.fst hthere) hf
    | false => rfl

/-- What is read and is no task is no unknown one either. -/
theorem reading_ne_unknownTask (fs : FileSystem) (cwd : CurrentDirectory) (path : FilePath)
    (id : Text) : reading fs cwd path ≠ .error (.unknownTask id) := by
  rw [reading]
  split
  · simp
  · split
    · rename_i bytes hread
      rw [readRecord]
      split
      · rw [parseTask]
        split
        · simp
        · split <;> simp
      · simp
    · simp

/-- An id that strays is never unknown. -/
theorem Strays.ne_unknownTask (hs : l.Strays h id) (other : Text) :
    (outcome (l.find id) h).1 ≠ .error (.unknownTask other) := by
  rw [outcome_find_of_isFile hs.2]
  exact reading_ne_unknownTask h.files h.cwd _ other

/-- An id with slashes is missed unless it strays. -/
theorem outcome_find_of_not_strays (hid : '/' ∈ id) (hs : ¬ l.Strays h id) :
    outcome (l.find id) h = (.error (l.missing h id), h) :=
  outcome_find_of_not_isFile fun hf => hs ⟨hid, hf⟩

theorem not_strays_of_not_mem (hid : '/' ∉ id) : ¬ l.Strays h id := fun hs => hid hs.1

/-! ### In a store -/

variable {state : FilePath} {d : Location}

/-- A lookup of the id reads the file at a location as the record. -/
def Reads (l : Ledger) (h : Host) (id : Text) (p : Location) : Prop :=
  hasNul (l.recordPath id).text = false ∧
    ∃ bytes, h.files.find h.cwd .followed (l.recordPath id).text = .ok (.entry p (.file bytes))

/-- What a lookup reads is a file. -/
theorem Reads.isFile {p : Location} (hr : l.Reads h id p) :
    (outcome (Action.isFile (l.recordPath id).text) h).1 = .ok true := by
  obtain ⟨hn, bytes, hfind⟩ := hr
  refine Action.isFile_iff.2 ⟨hn, bytes, ?_⟩
  rw [status, hfind]
  rfl

/-- An id without slashes is looked up among the records, and nowhere else. -/
theorem Reads.eq_of_not_mem (hs : Store h.files h.cwd state d)
    (hl : l.tasksDirectory = state.child tasksName) (hid : '/' ∉ id) {p : Location}
    (hr : l.Reads h id p) : p = d ++ [tasksName] ++ [recordName id] ∧
      ∃ e, h.files.entryAt (d ++ [tasksName] ++ [recordName id]) = some e := by
  obtain ⟨hn, bytes, hfind⟩ := hr
  rw [recordPath_eq l hid, hl] at hn hfind
  have hnul : hasNul id = false := by
    rcases hnul : hasNul id with _ | _
    · rfl
    · rw [FilePath.hasNul_text_child (hasNul_recordName hnul)] at hn
      cases hn
  have hplain := isPlain_recordName hid hnul
  by_cases hlong : isTooLong (recordName id)
  · rw [hs.leads_tasks.find_tooLong hplain hlong] at hfind
    cases hfind
  have hname : isName (recordName id) := by simp [isName, hplain, hlong]
  rcases he : h.files.entryAt (d ++ [tasksName] ++ [recordName id]) with _ | e
  · rw [hs.leads_tasks.find_vacant hname .followed he] at hfind
    cases Except.ok.inj hfind
  · obtain ⟨t, -, -, rfl⟩ := hs.records _ e he
    rw [hs.leads_tasks.find_entry .followed he (by simp)] at hfind
    exact ⟨(Found.entry.inj (Except.ok.inj hfind)).1.symm, _, rfl⟩

/-- A file that is looked up is read. -/
theorem exists_reads (hf : (outcome (Action.isFile (l.recordPath id).text) h).1 = .ok true) :
    ∃ p, l.Reads h id p := by
  obtain ⟨hn, bytes, hstatus⟩ := Action.isFile_iff.1 hf
  rw [status] at hstatus
  rcases hfind : h.files.find h.cwd .followed (l.recordPath id).text with e | found
  · rw [hfind] at hstatus
    cases hstatus
  · rw [hfind] at hstatus
    cases found with
    | entry p e =>
      obtain rfl := Except.ok.inj hstatus
      exact ⟨p, hn, bytes, hfind⟩
    | removed => cases Except.ok.inj hstatus
    | vacant directory name => cases hstatus

/-- **A lookup that does not stray reads the record of the id**, if it reads anything. -/
theorem Reads.eq_of_not_strays (hs : Store h.files h.cwd state d)
    (hl : l.tasksDirectory = state.child tasksName) (hid : ¬ l.Strays h id) {p : Location}
    (hr : l.Reads h id p) : p = d ++ [tasksName] ++ [recordName id] :=
  (hr.eq_of_not_mem hs hl fun hmem => hid ⟨hmem, hr.isFile⟩).1

/-- An id that does not stray and has no record is missed. -/
theorem outcome_find_of_unrecorded (hs : Store h.files h.cwd state d)
    (hl : l.tasksDirectory = state.child tasksName) (hid : ¬ l.Strays h id)
    (he : h.files.entryAt (d ++ [tasksName] ++ [recordName id]) = none) :
    outcome (l.find id) h = (.error (l.missing h id), h) := by
  refine outcome_find_of_not_isFile fun hf => ?_
  obtain ⟨p, hr⟩ := exists_reads hf
  obtain ⟨-, e, hentry⟩ := hr.eq_of_not_mem hs hl fun hmem => hid ⟨hmem, hf⟩
  cases he.symm.trans hentry

end Ledger

namespace Session

variable {s : Session} {step : Ledger.Step} {id : Text}

/-- A lookup of an id succeeds with a task, and changes nothing but what it is meant to. -/
structure Finds (s : Session) (id : Text) (t : Task) : Prop where
  find : outcome (s.desk.ledger.find id) s.desk.host = (.ok t, s.desk.host)
  load : s.take (.load id) = (.ok (.task t), { s with copies := s.copies ++ [t] })
  switch : (s.take (.switch id)).1 = .ok (.task t)
  current : (s.take (.switch id)).2.desk.ledger.current = some t

/-- A lookup of an id fails, and changes nothing. -/
structure Misses (s : Session) (id : Text) (f : Failure) : Prop where
  find : outcome (s.desk.ledger.find id) s.desk.host = (.error f, s.desk.host)
  load : s.take (.load id) = (.error f, s)
  switch : s.take (.switch id) = (.error f, s)

theorem misses_of_find {f : Failure}
    (h : outcome (s.desk.ledger.find id) s.desk.host = (.error f, s.desk.host)) :
    s.Misses id f := by
  refine ⟨h, ?_, ?_⟩
  · simp only [Session.take, h]
  · have hswitch : outcome (Ledger.switch id) s.desk = (.error f, s.desk) := by
      rw [Ledger.switch, outcome_bind_of_ok (outcome_ledger _)]
      exact outcome_bind_of_error (outcome_lift_of_eq h)
    simp only [Session.take, act, hswitch]
    rfl

/-- A step looks up no id that strays. -/
def LooksInside (s : Session) : Ledger.Step → Prop
  | .switch id | .load id => ¬ s.desk.ledger.Strays s.desk.host id
  | _ => True

instance : ∀ step : Ledger.Step, Decidable (s.LooksInside step)
  | .switch id | .load id => inferInstanceAs (Decidable ¬ s.desk.ledger.Strays s.desk.host id)
  | .start _ _ | .endCurrent | .addFiles _ | .clearFiles | .record _ | .recordOnCopy _ _ | .commit
  | .undo _ | .reopen => isTrue trivial

/-- A step that looks up no id that strays names a task, or fails and changes nothing. -/
theorem LooksInside.cases (h : s.LooksInside step) :
    step.NamesTask ∨ ∃ f, s.take step = (.error f, s) := by
  cases step with
  | switch id =>
    by_cases hid : '/' ∈ id
    · exact .inr ⟨_, (misses_of_find (outcome_find_of_not_strays hid h)).switch⟩
    · exact .inl hid
  | load id =>
    by_cases hid : '/' ∈ id
    · exact .inr ⟨_, (misses_of_find (outcome_find_of_not_strays hid h)).load⟩
    · exact .inl hid
  | _ => exact .inl trivial

end Session

end ReplyLedger
