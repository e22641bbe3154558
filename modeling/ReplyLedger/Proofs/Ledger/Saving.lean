import ReplyLedger.Proofs.FileSystem.Rereading
import ReplyLedger.Proofs.Ledger.Restart

/-!
# Saving and loading

Whatever texts its fields are, a task that has been saved is loaded again (`load_saved`), by the path
of its record or by any other that leads to the same bytes; its id may be any text that the record can
be saved under. What is lost is an offset of less than a second of the time of creation, which is
read as none (`Task.asRead`, `offset_lost_saved`).
-/

namespace ReplyLedger

open FileSystem Json Session

/-- A task as it is read from its record: an offset that is not kept is lost. -/
def Task.asRead (t : Task) : Task :=
  if Timestamp.IsKept t.created.offset then t else { t with created := t.created.withoutOffset }

/-- A host as an operating system shows it: its current directory is in the tree, and its links are
to texts without NUL characters. -/
structure Host.IsSound (h : Host) : Prop where
  cwd : h.cwd.IsIn h.files
  links : h.files.LinksHaveNoNul

namespace Ledger

variable {h h' : Host} {l : Ledger} {t : Task}

/-! ## Reading records -/

/-- The task of the bytes of a record. -/
def readRecord (bytes : Bytes) : Except Failure Task :=
  match Utf8.decodeWith .strict bytes with
  | .ok text => parseTask text
  | .error fault => .error (.undecodable fault)

/-- The task of the record file that a path leads to. -/
def reading (fs : FileSystem) (cwd : CurrentDirectory) (path : FilePath) : Except Failure Task :=
  if hasNul path.text then .error .badName
  else
    match fs.readFile cwd path.text with
    | .ok bytes => readRecord bytes
    | .error error => .error (.system error path.text)

/-- Loading a record reads it, and nothing else. -/
theorem outcome_load_eq (path : FilePath) (h : Host) :
    outcome (load path) h = (reading h.files h.cwd path, h) := by
  rw [load, Action.readText, Action.readTextWith, bind_assoc, reading]
  rcases hn : hasNul path.text with _ | _
  · rw [if_neg Bool.false_ne_true]
    rcases hr : h.files.readFile h.cwd path.text with error | bytes
    · rw [outcome_bind, Action.outcome_call hn, hr]
      rfl
    · rw [outcome_bind_of_ok (Action.outcome_call_of_ok hn hr)]
      simp only [readRecord]
      rcases Utf8.decodeWith .strict bytes with fault | text
      · rfl
      · rw [pure_bind]
        dsimp only
        rcases parseTask text with f | t <;> rfl
  · rw [outcome_bind, Action.outcome_call_of_hasNul hn, if_pos rfl]

theorem reading_of_readFile {fs : FileSystem} {cwd : CurrentDirectory} {path : FilePath}
    {bytes : Bytes} (hn : hasNul path.text = false) (hr : fs.readFile cwd path.text = .ok bytes) :
    reading fs cwd path = readRecord bytes := by
  rw [reading, if_neg (by simp [hn]), hr]

/-- A task of texts is read from the bytes of its record, but for an offset that is not kept. -/
theorem readRecord_recordBytes (ht : t.HasTexts) : readRecord (recordBytes t) = .ok t.asRead := by
  have hdecode : Utf8.decodeWith .strict (recordBytes t) = .ok t.toRecord.document := by
    rw [Utf8.decodeWith, recordBytes, Utf8.decode_encode]
  simp only [readRecord, hdecode]
  by_cases hk : Timestamp.IsKept t.created.offset
  · rw [parseTask_document_of_hasTexts ht (Timestamp.ofText_write hk), Task.asRead, if_pos hk]
  · rw [parseTask_document_of_hasTexts ht (Timestamp.ofText_write_of_not_isKept hk), Task.asRead,
      if_neg hk]

/-! ## Saving -/

/-- What saving a task has written is read at the path of its record. -/
theorem readFile_of_save (hh : h.IsSound) (hs : outcome (l.save t) h = (.ok (), h')) :
    hasNul (l.recordPath t.id).text = false ∧
      h'.files.readFile h'.cwd (l.recordPath t.id).text = .ok (recordBytes t) := by
  rw [save, Action.writeText] at hs
  rcases hn : hasNul (l.recordPath t.id).text with _ | _
  · refine ⟨rfl, ?_⟩
    rw [Action.outcome_change hn] at hs
    rcases hc : h.files.changeFile h.cwd (l.recordPath t.id).text
        (fun _ => Utf8.encode t.toRecord.document) with error | files
    · simp [hc] at hs
    · rw [hc] at hs
      obtain rfl := (Prod.mk.inj hs).2
      exact readFile_of_changeFile hh.links hh.cwd hn hc
  · rw [Action.outcome_change_of_hasNul hn] at hs
    simp at hs

/-- **Saving and loading a task loses nothing**, if the offset of its time of creation is kept.
Wherever a task has been saved, its record has the bytes of its document, and a file with these
bytes is loaded as the task; of an offset that is not kept, nothing is left. -/
theorem load_saved (hh : h.IsSound) (ht : t.HasTexts)
    (hs : outcome (l.save t) h = (.ok (), h')) :
    h'.files.readFile h'.cwd (l.recordPath t.id).text = .ok (recordBytes t) ∧
      (∀ (g : Host) (path : FilePath), hasNul path.text = false →
        g.files.readFile g.cwd path.text = .ok (recordBytes t) →
        outcome (load path) g = (.ok t.asRead, g)) ∧
      outcome (load (l.recordPath t.id)) h' = (.ok t.asRead, h') ∧
      (Timestamp.IsKept t.created.offset → t.asRead = t) ∧
      (¬ Timestamp.IsKept t.created.offset →
        t.asRead = { t with created := t.created.withoutOffset }) := by
  obtain ⟨hn, hr⟩ := readFile_of_save hh hs
  have hload {g : Host} {path : FilePath} (hn : hasNul path.text = false)
      (hr : g.files.readFile g.cwd path.text = .ok (recordBytes t)) :
      outcome (load path) g = (.ok t.asRead, g) := by
    rw [outcome_load_eq, reading_of_readFile hn hr, readRecord_recordBytes ht]
  exact ⟨hr, fun _ _ => hload, hload hn hr, fun hk => if_pos hk, fun hk => if_neg hk⟩

/-! ## A task with texts of all kinds -/

theorem inRange_lastDay : Date.InRange 1 12 31 :=
  ⟨by decide, by decide, by decide, by decide, by decide, by decide⟩

theorem lastMicro_lt : 86399999999 < dayMicros := by decide

theorem lastOffset_lt : Int.natAbs (-86399999999) < dayMicros := by decide

/-- A task on which operations of the five kinds have been recorded, at the end of the first year of
the calendar, almost a day west of universal time. Its texts hold quotes, backslashes, control
characters, line separators and characters of one to four bytes. -/
def scriptedTask : Task where
  id := "../ä\\"
  name := .text ['\"', '\\', '\x07', '\u2028', 'ж', '𝄞']
  description := .text []
  created := ⟨.ofInRange inRange_lastDay, 86399999999, -86399999999, lastMicro_lt, lastOffset_lt⟩
  operations := [.create (.text ['a', '"']) (.text ['\r', '\n']), .delete (.text ['\\']),
    .rename (.text ['b']) (.text ['\u2029']), .edit (.text ['c']) (.text ['\x00']) (.text []),
    .overwrite (.text ['語']) (.text ['\t'])]
  status := .undone
  affected := [.text ['a', '"'], .text ['a', '"']]
  included := [.text []]

theorem hasTexts_scriptedTask : scriptedTask.HasTexts := by
  refine ⟨⟨_, rfl⟩, ⟨_, rfl⟩, fun op hop => ?_, fun v hv => ?_, fun v hv => ?_⟩
  · simp only [scriptedTask, List.mem_cons, List.not_mem_nil, or_false] at hop
    rcases hop with rfl | rfl | rfl | rfl | rfl
    · exact ⟨.create ['a', '"'] ['\r', '\n'], rfl, by decide⟩
    · exact ⟨.delete ['\\'], rfl, by decide⟩
    · exact ⟨.rename ['b'] ['\u2029'], rfl, by decide⟩
    · exact ⟨.edit ['c'] ['\x00'] [], rfl, by decide⟩
    · exact ⟨.overwrite ['語'] ['\t'], rfl, by decide⟩
  · simp only [scriptedTask, List.mem_cons, List.not_mem_nil, or_false, or_self] at hv
    exact ⟨_, hv⟩
  · simp only [scriptedTask, List.mem_cons, List.not_mem_nil, or_false] at hv
    exact ⟨_, hv⟩

/-- The directory of the records is there, and the only link leads to the directory above it. -/
theorem isSound_linkedStateHost : (withTasks linkedStateHost [['h'], ['s']]).IsSound := by
  refine ⟨rfl, fun p target hp => ?_⟩
  have hlinks : ∀ x ∈ (withTasks linkedStateHost [['h'], ['s']]).files.entries,
      x.2 = .directory ∨ x.2 = .link ['h', '/', 's'] := by decide +kernel
  have hp0 : p ≠ [] := by
    rintro rfl
    simp [entryAt_nil] at hp
  rcases hlinks _ ((entryAt_eq_some_iff hp0).1 hp) with h | h
  · simp at h
  · obtain rfl := Entry.link.inj h
    decide

/-- The record is saved beside the directory of the records, since the id goes up from there. -/
theorem load_saved_scriptedTask :
    let l := fresh (FilePath.ofText ['l']) (.noting [] [])
    let after := (outcome (l.save scriptedTask) (withTasks linkedStateHost [['h'], ['s']])).2
    (l.recordPath scriptedTask.id).text = "l/tasks/../ä\\.json" ∧
      after.files.entryAt [['h'], ['s'], "ä\\.json"] = some (.file (recordBytes scriptedTask)) ∧
      outcome (load (l.recordPath scriptedTask.id)) after = (.ok scriptedTask, after) := by
  intro l after
  have hsaved : (outcome (l.save scriptedTask) (withTasks linkedStateHost [['h'], ['s']])).1.isOk := by
    decide +kernel
  have hs : outcome (l.save scriptedTask) (withTasks linkedStateHost [['h'], ['s']]) =
      (.ok (), after) := by
    refine Prod.ext ?_ rfl
    rcases ho : (outcome (l.save scriptedTask) (withTasks linkedStateHost [['h'], ['s']])).1 with f | u
    · rw [ho] at hsaved
      simp [Except.isOk, Except.toBool] at hsaved
    · rfl
  obtain ⟨-, -, hload, hkept, -⟩ := load_saved isSound_linkedStateHost hasTexts_scriptedTask hs
  rw [hkept (by decide)] at hload
  exact ⟨by decide +kernel, by decide +kernel, hload⟩

/-! ## An offset of half a millisecond -/

theorem shift_lt : 500 < dayMicros := by decide

/-- A task that has been created half a millisecond east of universal time. -/
def shiftedTask : Task :=
  { scriptedTask with
    id := ['a', '1']
    created := ⟨.ofInRange Date.inRange_firstDay, 0, 500, dayMicros_pos, shift_lt⟩ }

/-- **An offset of less than a second is lost** when a task is saved and loaded. -/
theorem offset_lost_saved :
    let l := fresh (FilePath.ofText ['l']) (.noting [] [])
    let after := (outcome (l.save shiftedTask) (withTasks linkedStateHost [['h'], ['s']])).2
    shiftedTask.HasTexts ∧ shiftedTask.created.offset = 500 ∧
      ((outcome (load (l.recordPath shiftedTask.id)) after).1.toOption.map fun t =>
        t.created.offset) = some 0 := by
  have ht := hasTexts_scriptedTask
  exact ⟨⟨ht.name, ht.description, ht.operations, ht.affected, ht.included⟩, rfl,
    by decide +kernel⟩

end Ledger

end ReplyLedger
