import ReplyLedger.Proofs.Ledger.Enrolment
import ReplyLedger.Proofs.Ledger.Naming

/-!
# Lookups by id

On a host without records, whatever else it holds, a ledger is opened without a current task
(`Session.enrolled_openIn`). In every run from there, a lookup finds exactly the ids that have been
given to tasks, with the tasks that were created under them; it reads no file but the record of the
id, and nothing is written outside of the store (`Session.lookups_exact`).

This is so as long as no id is looked up that strays, by a step or by the pointer. One that does is
taken for the id of a task, and the id in the record that it leads to decides where the task is saved
from then on (`Session.lookup_strays_strayingStart`).
-/

namespace ReplyLedger

open FileSystem Ledger LedgerAction Session

variable {h h' : Host} {l : Ledger} {state : FilePath} {d : Location}

/-! ## Opening -/

/-- Making the directory of the records writes in the store only. -/
theorem Ledger.sameOutside_prepared (h : Host) (d : Location) :
    SameOutside d h.files (prepared h d).files := by
  rw [prepared]
  split
  · exact .refl d _
  · exact fun _ hr => entryAt_put_of_ne _ fun he => hr (.inr (he ▸ List.prefix_refl _))

/-- A host without records: the directory of the records is empty, or not there yet. Anything else
may be there, also in the place of the pointer, if that is a file. -/
structure Host.HasNoRecords (h : Host) (state : FilePath) (d : Location) : Prop where
  leads : h.files.Leads h.cwd state d
  tasks : ∀ e, h.files.entryAt (d ++ [tasksName]) = some e → e = .directory
  vacant : ∀ name, h.files.entryAt (d ++ [tasksName] ++ [name]) = none
  slot : IsSlot h.files d
  supplied : h.IsSupplied

namespace Host.HasNoRecords

theorem stateDirectory (hh : h.HasNoRecords state d) :
    StateDirectory h.files h.cwd state d := by
  refine ⟨hh.leads, hh.tasks, fun name target he => ?_, hh.slot⟩
  cases (hh.vacant name).symm.trans he

/-- The directory of the records is made, if it is not there. -/
theorem isDirectory_prepared (hh : h.HasNoRecords state d) :
    (prepared h d).files.IsDirectory (d ++ [tasksName]) := by
  rw [prepared]
  split
  · assumption
  · rename_i hno
    have hnone : h.files.entryAt (d ++ [tasksName]) = none := by
      rcases he : h.files.entryAt (d ++ [tasksName]) with _ | e
      · rfl
      · obtain rfl := hh.tasks e he
        exact absurd he hno
    exact (entryAt_put (accepts_of_vacant hh.leads.isDirectory isName_tasksName hnone) _ _).trans
      (if_pos rfl)

theorem vacant_prepared (hh : h.HasNoRecords state d) (name : Text) :
    (prepared h d).files.entryAt (d ++ [tasksName] ++ [name]) = none := by
  rw [prepared]
  split
  · exact hh.vacant name
  · exact (entryAt_put_of_ne _ (by simp)).trans (hh.vacant name)

/-- A ledger without a current task has its place there. -/
theorem standing (hh : h.HasNoRecords state d) (vcs : Vcs) :
    Desk.Standing state d ⟨prepared h d, fresh state vcs⟩ := by
  obtain ⟨hleads, hpointer⟩ := hh.stateDirectory.prepared
  refine ⟨⟨hleads, hh.isDirectory_prepared, fun name e he => ?_⟩, fun e he => ?_, ?_, rfl, rfl⟩
  · cases (hh.vacant_prepared name).symm.trans he
  · exact hh.slot e (hpointer ▸ he)
  · change (prepared h d).IsSupplied
    rw [prepared]
    split
    · exact hh.supplied
    · exact ⟨hh.supplied.ids, hh.supplied.clock, hh.supplied.journalTime⟩

end Host.HasNoRecords

namespace Ledger

/-- The ledger has no pointer, or one that names no id that strays, if it can be read. -/
def PointsInside (h : Host) (l : Ledger) (d : Location) : Prop :=
  l.pointer = none ∨ ∀ bytes text, h.files.entryAt (d ++ [pointerName]) = some (.file bytes) →
    Utf8.decodeWith .strict bytes = .ok text → ¬ l.Strays h (Text.strip text)

/-- Without records there is no current task, and a pointer that can be read is cleared. -/
theorem restore_unrecorded (hd : Desk.Standing state d ⟨h, l⟩)
    (he : ∀ name, h.files.entryAt (d ++ [tasksName] ++ [name]) = none)
    (hin : PointsInside h l d) {current : Option Task}
    (ho : outcome l.restore h = (.ok current, h')) :
    current = none ∧ ∃ events, h' = withPointer (h.told events) d none := by
  have hleads : h.files.Leads h.cwd state d := hd.store.leads
  have hpointer : l.pointer = some (state.child pointerName) := hd.pointer
  rcases hentry : h.files.entryAt (d ++ [pointerName]) with _ | e
  · rw [outcome_restore_vacant hleads hpointer hentry] at ho
    obtain ⟨hnone, rfl⟩ := Prod.mk.inj ho
    refine ⟨(Except.ok.inj hnone).symm, [], ?_⟩
    rw [Host.told_nil, withPointer, erase_of_vacant hentry]
  obtain ⟨bytes, rfl⟩ := hd.slot e hentry
  rcases htext : Utf8.decodeWith .strict bytes with fault | text
  · have hn := Action.hasNul_child hleads isName_pointerName
    have hread : outcome (Action.readText (state.child pointerName).text) h =
        (.error (.undecodable fault), h) := by
      rw [Action.readText, Action.readTextWith,
        outcome_bind_of_ok (Action.outcome_call_of_ok hn (hleads.readFile_child hentry)), htext]
      rfl
    simp only [restore, hpointer] at ho
    rw [outcome_bind_of_ok (Action.outcome_isFile hleads hentry), if_pos rfl,
      outcome_bind_of_error hread] at ho
    cases (Prod.mk.inj ho).1
  · have hstrays := hin.resolve_left (by simp [hpointer]) bytes text hentry htext
    have hfind := outcome_find_of_unrecorded hd.store hd.tasksDirectory hstrays (he _)
    rw [outcome_restore_of_find hleads hpointer hentry htext, hfind, missing] at ho
    by_cases hlong : l.IsOverlong h (Text.strip text)
    · rw [if_pos hlong] at ho
      cases (Prod.mk.inj ho).1
    · rw [if_neg hlong] at ho
      obtain ⟨hnone, rfl⟩ := Prod.mk.inj ho
      exact ⟨(Except.ok.inj hnone).symm, [clearing (Text.strip text)], rfl⟩

end Ledger

namespace Session

/-- What opening a ledger without records comes to: no task is the current one, no record is there,
and nothing has been written outside of the store. -/
theorem openIn_unrecorded (hh : h.HasNoRecords state d) (vcs : Vcs) {pointer : Option FilePath}
    (hp : ∀ p, pointer = some p → p = state.child pointerName)
    (hin : PointsInside (prepared h d) { fresh state vcs with pointer } d)
    (hopen : outcome (openIn (state.child tasksName) vcs pointer) h = (.ok l, h')) :
    l = { fresh state vcs with pointer } ∧ Desk.Stored state d ⟨h', l⟩ ∧
      (∀ name, h'.files.entryAt (d ++ [tasksName] ++ [name]) = none) ∧
      SameOutside d (prepared h d).files h'.files := by
  have hd := hh.standing vcs
  have hmade := hh.stateDirectory.outcome_ensureDirectories
  cases pointer with
  | none =>
    rw [outcome_openIn_unpointed vcs hmade] at hopen
    obtain ⟨hl, rfl⟩ := Prod.mk.inj hopen
    obtain rfl := Except.ok.inj hl
    have hnone : ∀ t, (fresh state vcs).current = some t → t.IsStorable := by simp [fresh]
    exact ⟨rfl, ⟨hd.store, hd.supplied, rfl, hnone, .inl rfl⟩, hh.vacant_prepared, .refl d _⟩
  | some p =>
    obtain rfl := hp p rfl
    rw [openIn, outcome_bind_of_ok hmade] at hopen
    rcases hrestore : outcome (fresh state vcs).restore (prepared h d) with ⟨f | current, after⟩
    · cases (outcome_bind_of_error hrestore).symm.trans hopen
    obtain ⟨rfl, events, rfl⟩ := restore_unrecorded hd hh.vacant_prepared hin hrestore
    obtain ⟨hl, rfl⟩ := Prod.mk.inj ((outcome_bind_of_ok hrestore).symm.trans hopen)
    obtain rfl := Except.ok.inj hl
    have hspared : (prepared h d).Spared ((prepared h d).told events) :=
      ⟨rfl, rfl, List.Subset.refl _, List.Subset.refl _, rfl⟩
    have horder : Desk.InOrder state d ⟨withPointer ((prepared h d).told events) d none, _⟩ :=
      (hd.spared hspared vcs).setCurrent (by simp)
    refine ⟨rfl, horder.kept.stored, fun name => ?_, ?_⟩
    · exact (entryAt_withPointer_of_ne (record_ne_pointer d name) none).trans
        (hh.vacant_prepared name)
    · exact sameOutside_withPointer ((prepared h d).told events) d none

/-- **A ledger that is opened without records has no current task and an empty roll**, and nothing has
been written outside of its store. -/
theorem enrolled_openIn (hh : h.HasNoRecords state d) (vcs : Vcs) {pointer : Option FilePath}
    (hp : ∀ p, pointer = some p → p = state.child pointerName)
    (hin : PointsInside (prepared h d) { fresh state vcs with pointer } d)
    (hopen : outcome (openIn (state.child tasksName) vcs pointer) h = (.ok l, h')) :
    l = { fresh state vcs with pointer } ∧ Enrolled state d h.files [] ⟨⟨h', l⟩, []⟩ := by
  obtain ⟨rfl, hstored, hvacant, houtside⟩ := openIn_unrecorded hh vcs hp hin hopen
  refine ⟨rfl, ⟨hstored, List.forall_mem_nil _⟩, (sameOutside_prepared h d).trans houtside,
    fun t ht => ?_, ?_, List.forall_mem_nil _⟩
  · cases (hvacant (recordName t.id)).symm.trans ht.2
  · rintro t (ht | ht)
    · cases ht
    · cases ht

/-! ## Runs -/

/-- A task that is held is found by its id. -/
theorem Stored.finds {s : Session} (hs : s.Stored state d) {t : Task}
    (ht : Holds s.desk.host.files d t) : s.Finds t.id t := by
  have hfind := outcome_find_of_recorded hs.desk.store hs.desk.tasksDirectory ht.1 ht.2
  obtain ⟨files, hset, -⟩ := hs.desk.moves_refl.setCurrent fun u hu => Option.some.inj hu ▸ ht
  have hswitch : outcome (Ledger.switch t.id) s.desk =
      (.ok t, ⟨{ s.desk.host with files }, { s.desk.ledger with current := some t }⟩) := by
    rw [Ledger.switch, outcome_bind_of_ok (outcome_ledger _),
      outcome_bind_of_ok (outcome_lift_of_eq hfind), outcome_bind_of_ok hset]
    rfl
  refine ⟨hfind, ?_, ?_, ?_⟩
  · simp only [Session.take, hfind]
  · simp only [Session.take, act, hswitch]
    rfl
  · simp only [Session.take, act, hswitch]

namespace Enrolled

variable {s : Session} {origin : FileSystem} {roll : List Task.Identity} {id : Text}

/-- An id that has no record is on no roll. -/
theorem vacant (hs : s.Enrolled state d origin roll) (hid : ∀ i ∈ roll, i.id ≠ id) :
    s.desk.host.files.entryAt (d ++ [tasksName] ++ [recordName id]) = none := by
  rcases he : s.desk.host.files.entryAt (d ++ [tasksName] ++ [recordName id]) with _ | e
  · rfl
  · obtain ⟨t, ht, hname, rfl⟩ := hs.desk.store.records _ e he
    obtain rfl := recordName_inj hname
    exact absurd rfl (hid t.identity (hs.held t ⟨ht, he⟩))

/-- An id on the roll does not stray. -/
theorem not_strays (hs : s.Enrolled state d origin roll) {i : Task.Identity} (hi : i ∈ roll) :
    ¬ s.desk.ledger.Strays s.desk.host i.id := by
  obtain ⟨t, ht, hid⟩ := hs.kept i hi
  exact not_strays_of_not_mem (hid ▸ ht.1.isId.not_mem (by decide))

/-- The pointer names no id that strays. -/
theorem pointsInside (hs : s.Enrolled state d origin roll) :
    PointsInside s.desk.host s.desk.ledger d := by
  refine hs.desk.pointer.imp_right fun hkept bytes text he htext => ?_
  obtain ⟨target, ho⟩ := hkept.onDisk
  have hpoints := ho.points
  cases target with
  | none => cases hpoints.symm.trans he
  | some t =>
    obtain ⟨ht, -, hline⟩ := hpoints
    obtain rfl := Entry.file.inj (Option.some.inj (hline.symm.trans he))
    rw [Utf8.decodeWith, Utf8.decode_encode] at htext
    obtain rfl := Except.ok.inj htext
    rw [pointerLine, ht.isId.strip_line]
    exact not_strays_of_not_mem (ht.isId.not_mem (by decide))

end Enrolled

/-- **Lookups by id are exact, and stay in the store**, unless the id strays. A ledger is opened on a
host without records, and steps are taken on it that look up no id that strays, nor does the pointer
name one. After that, an id that does not stray is found exactly if it has been given to a task in the
run, with a task that the run has created under it, and is missed otherwise, as unknown or as too
long; and the only file that is read for it is its record. An id that strays is never one of those
that have been given, and yet is never unknown. All records are those of tasks that the run has
created, and outside of the store every file is as it was before the ledger was opened. -/
theorem lookups_exact (hh : h.HasNoRecords state d) (vcs : Vcs) {pointer : Option FilePath}
    (hp : ∀ p, pointer = some p → p = state.child pointerName)
    (hin : PointsInside (prepared h d) { fresh state vcs with pointer } d)
    (hopen : outcome (openIn (state.child tasksName) vcs pointer) h = (.ok l, h'))
    {history : List (Session × Ledger.Step)} {last : Session}
    (hrun : Run LooksInside ⟨⟨h', l⟩, []⟩ history last) :
    let ledger := last.desk.ledger
    let host := last.desk.host
    (∀ id, ¬ ledger.Strays host id →
      (id ∈ history.flatMap created →
        ∃ t, t.id = id ∧ t.identity ∈ history.flatMap creations ∧ last.Finds id t) ∧
      (id ∉ history.flatMap created → last.Misses id (ledger.missing host id)) ∧
      ∀ p, ledger.Reads host id p → p = d ++ [tasksName] ++ [recordName id]) ∧
    (∀ id, ledger.Strays host id → id ∉ history.flatMap created ∧
      ∀ other, (outcome (ledger.find id) host).1 ≠ .error (.unknownTask other)) ∧
    (∀ name e, host.files.entryAt (d ++ [tasksName] ++ [name]) = some e →
      ∃ t : Task, t.identity ∈ history.flatMap creations ∧ name = recordName t.id ∧
        e = .file (recordBytes t)) ∧
    PointsInside host ledger d ∧ SameOutside d h.files host.files := by
  intro ledger host
  have hs := hrun.enrolled (enrolled_openIn hh vcs hp hin hopen).2
  rw [List.nil_append] at hs
  refine ⟨fun id hid => ⟨fun hmem => ?_, fun hmem => ?_, fun p hr => ?_⟩, fun id hid => ⟨?_, ?_⟩,
    fun name e he => ?_, hs.pointsInside, hs.outside⟩
  · obtain ⟨i, hi, rfl⟩ := mem_created_iff.1 hmem
    obtain ⟨t, ht, htid⟩ := hs.kept i hi
    exact ⟨t, htid, hs.held t ht, htid ▸ hs.toStored.finds ht⟩
  · refine misses_of_find (outcome_find_of_unrecorded hs.desk.store hs.desk.tasksDirectory hid ?_)
    exact hs.vacant fun i hi he => hmem (mem_created_iff.2 ⟨i, hi, he⟩)
  · exact hr.eq_of_not_strays hs.desk.store hs.desk.tasksDirectory hid
  · intro hmem
    obtain ⟨i, hi, rfl⟩ := mem_created_iff.1 hmem
    exact hs.not_strays hi hid
  · exact hid.ne_unknownTask
  · obtain ⟨t, ht, rfl, rfl⟩ := hs.desk.store.records name e he
    exact ⟨t, hs.held t ⟨ht, he⟩, rfl, rfl⟩

/-! ### A record outside of the store -/

/-- A task with an id that is a path. -/
def strayTask : Task where
  id := "../../y"
  name := .text ['N']
  description := .text []
  created := linkedStateHost.journalTime
  operations := []
  status := .pending
  affected := []
  included := []

/-- The record of a task beside the state directory, and a pointer to no task. -/
def strayingHost : Host :=
  { linkedStateHost with
    files := (linkedStateHost.files.put [['h'], "x.json"] (.file (recordBytes strayTask))).put
      [['h'], ['s'], pointerName] (.file (Utf8.encode ['g', '\n'])) }

/-- The session with the ledger that is opened there. -/
def strayingStart : Session :=
  let state := FilePath.ofText ['l']
  ⟨⟨(outcome (openIn (state.child tasksName) (.noting [] []) (some (state.child pointerName)))
    strayingHost).2, fresh state (.noting [] [])⟩, []⟩

theorem hasNoRecords_strayingHost :
    strayingHost.HasNoRecords (FilePath.ofText ['l']) [['h'], ['s']] := by
  have hsupplied := isFresh_linkedStateHost.supplied
  have hnone : strayingHost.files.entryAt [['h'], ['s'], tasksName] = none := by decide +kernel
  have hpointer : strayingHost.files.entryAt [['h'], ['s'], pointerName] =
      some (.file (Utf8.encode ['g', '\n'])) := by decide +kernel
  refine ⟨⟨FilePath.isProper_ofText (by decide), by decide +kernel, by decide +kernel⟩,
    fun e he => ?_, fun name => ?_, fun e he => ?_,
    ⟨hsupplied.ids, hsupplied.clock, hsupplied.journalTime⟩⟩
  · cases hnone.symm.trans he
  · exact entryAt_append_eq_none (p := [['h'], ['s'], tasksName]) (by simp [IsDirectory, hnone])
      (by simp)
  · exact ⟨_, Option.some.inj (he.symm.trans hpointer)⟩

theorem pointsInside_strayingHost : PointsInside (prepared strayingHost [['h'], ['s']])
    (fresh (FilePath.ofText ['l']) (.noting [] [])) [['h'], ['s']] := by
  have hpointer : (prepared strayingHost [['h'], ['s']]).files.entryAt [['h'], ['s'], pointerName] =
      some (.file (Utf8.encode ['g', '\n'])) := by decide +kernel
  refine .inr fun bytes text he htext => ?_
  obtain rfl := Entry.file.inj (Option.some.inj (hpointer.symm.trans he))
  rw [Utf8.decodeWith, Utf8.decode_encode] at htext
  obtain rfl := Except.ok.inj htext
  decide +kernel

theorem outcome_openIn_strayingHost :
    let state := FilePath.ofText ['l']
    outcome (openIn (state.child tasksName) (.noting [] []) (some (state.child pointerName)))
      strayingHost = (.ok strayingStart.desk.ledger, strayingStart.desk.host) := by
  intro state
  have hok : (outcome (openIn (state.child tasksName) (.noting [] [])
      (some (state.child pointerName))) strayingHost).1.toOption.isSome := by decide +kernel
  rcases hopen : outcome (openIn (state.child tasksName) (.noting [] [])
      (some (state.child pointerName))) strayingHost with ⟨f | l, after⟩
  · rw [hopen] at hok
    cases hok
  · have hl := (enrolled_openIn hasNoRecords_strayingHost (.noting [] [])
      (fun p hp => (Option.some.inj hp).symm) pointsInside_strayingHost hopen).1
    rw [hl, strayingStart, hopen]
    rfl

/-- Tasks are started and looked up, beside an id that is a path to nothing. -/
def lookingSteps : List Ledger.Step :=
  [.start ['A'] none, .switch "../x", .start ['B'] none, .load ['a', '1'], .reopen]

/-- The first task is found by its id, and the path is unknown; the record outside is still there. -/
theorem lookups_exact_lookingSteps :
    let state := FilePath.ofText ['l']
    let last := (play lookingSteps strayingStart).2
    strayingHost.HasNoRecords state [['h'], ['s']] ∧
      PointsInside (prepared strayingHost [['h'], ['s']]) (fresh state (.noting [] []))
        [['h'], ['s']] ∧
      outcome (openIn (state.child tasksName) (.noting [] []) (some (state.child pointerName)))
        strayingHost = (.ok strayingStart.desk.ledger, strayingStart.desk.host) ∧
      Run LooksInside strayingStart (trace lookingSteps strayingStart) last ∧
      (∃ t, t.id = ['a', '1'] ∧ last.Finds ['a', '1'] t) ∧
      last.Misses "../x" (.unknownTask "../x") ∧
      last.desk.host.files.entryAt [['h'], "x.json"] = some (.file (recordBytes strayTask)) := by
  intro state last
  have hrun : Run LooksInside strayingStart (trace lookingSteps strayingStart) last :=
    run_play (by decide +kernel)
  obtain ⟨hexact, -, -, -, houtside⟩ := lookups_exact hasNoRecords_strayingHost (.noting [] [])
    (fun p hp => (Option.some.inj hp).symm) pointsInside_strayingHost outcome_openIn_strayingHost hrun
  have hcreated : (trace lookingSteps strayingStart).flatMap created = [['a', '1'], ['b', '2']] := by
    decide +kernel
  obtain ⟨hfound, -, -⟩ := hexact ['a', '1'] (by decide +kernel)
  obtain ⟨-, hmissed, -⟩ := hexact "../x" (by decide +kernel)
  obtain ⟨t, hid, -, hfinds⟩ := hfound (by simp [hcreated])
  have hshort : ¬ last.desk.ledger.IsOverlong last.desk.host "../x" := by decide +kernel
  have hmisses := hmissed (by rw [hcreated]; decide)
  rw [missing, if_neg hshort] at hmisses
  refine ⟨hasNoRecords_strayingHost, pointsInside_strayingHost, outcome_openIn_strayingHost, hrun,
    ⟨t, hid, hfinds⟩, hmisses, ?_⟩
  have hplace : ¬ InStore [['h'], ['s']] [['h'], "x.json"] := by unfold InStore; decide
  exact (houtside _ hplace).trans (by decide +kernel)

/-- **An id that is a path finds a record outside of the store**, of a task that has another id and
that nobody has created; the file that is added to the task next is saved outside of the store. -/
theorem lookup_strays_strayingStart :
    let switched := strayingStart.take (.switch "../../x")
    let after := (switched.2.take (.addFiles [['f']])).2
    strayingHost.HasNoRecords (FilePath.ofText ['l']) [['h'], ['s']] ∧
      created (strayingStart, .switch "../../x") = [] ∧
      (∃ t, switched.1 = .ok (.task t) ∧ t.id = "../../y") ∧
      ¬ SameOutside [['h'], ['s']] strayingHost.files after.desk.host.files := by
  intro switched after
  have hanswered : answered switched.1 = some (("../../y" : Text), true) := by decide +kernel
  obtain ⟨t, ht, hid, -⟩ := exists_of_answered hanswered
  have hfree : strayingHost.files.entryAt [['h'], "y.json"] = none := by decide +kernel
  have hwritten : (after.desk.host.files.entryAt [['h'], "y.json"]).isSome := by decide +kernel
  have hplace : ¬ InStore [['h'], ['s']] [['h'], "y.json"] := by unfold InStore; decide
  refine ⟨hasNoRecords_strayingHost, rfl, ⟨t, ht, hid⟩, fun houtside => ?_⟩
  rw [houtside _ hplace, hfree] at hwritten
  cases hwritten

end Session

end ReplyLedger
