import ReplyLedger.Proofs.Ledger.Splitting
import ReplyLedger.Proofs.Ledger.Tracking

/-!
# Coherent tasks

A task keeps lists that could be read off others: the affected files are the paths of its operations,
each where it occurs first, and its status says whether there are any operations. In every run from an
empty state directory a task that is in memory, and a task whose record is on the disk, agrees with
itself in these things (`tasks_coherent`), although the lists are kept up by different steps, and
saved and loaded apart from each other. A new task is coherent, and whatever a step does to a task
keeps it so (`Does.coherent`).
-/

namespace ReplyLedger

open FileSystem Ledger Json

namespace Task

/-! ## Lists without duplicates -/

theorem union_cons (known vs : List Value) (v : Value) :
    union known (v :: vs) = union (if v.isAmong known then known else known ++ [v]) vs := by
  rw [union, additions]
  split
  · rfl
  · rw [union, List.append_assoc]
    rfl

/-- What is added to a list, is added once. -/
theorem nodup_union_text {known : List Value} (hk : known.Nodup) (new : List Text) :
    (union known (new.map .text)).Nodup := by
  induction new generalizing known with
  | nil => simpa [union, additions] using hk
  | cons t new ih =>
    rw [List.map_cons, union_cons]
    by_cases ht : (Value.text t).isAmong known
    · rw [if_pos ht]
      exact ih hk
    · rw [if_neg ht]
      have hnew : Value.text t ∉ known := fun hmem => ht (Value.isAmong_text.2 hmem)
      refine ih (List.nodup_append.2 ⟨hk, List.nodup_singleton _, fun v hv w hw => ?_⟩)
      rw [List.mem_singleton.1 hw]
      exact fun he => hnew (he ▸ hv)

/-- The texts that a list gains are the new ones that it lacks, each where it occurs first. -/
theorem additions_text (known new : List Text) :
    additions (known.map .text) (new.map .text) =
      ((new.removeAll known).eraseDups.map .text : List Value) := by
  induction new generalizing known with
  | nil => rfl
  | cons t new ih =>
    have hamong : (Value.text t).isAmong (known.map .text) ↔ t ∈ known := by
      rw [Value.isAmong_text, List.mem_map_of_injective fun _ _ => Value.text.inj]
    rw [List.map_cons, additions]
    by_cases ht : t ∈ known
    · rw [if_pos (hamong.2 ht), ih, List.cons_removeAll, if_neg (by simpa using ht)]
    · have hrest : new.removeAll (known ++ [t]) = (new.removeAll known).filter fun u => !u == t := by
        rw [List.removeAll, List.removeAll, List.filter_filter]
        refine List.filter_congr fun u _ => ?_
        by_cases hu : u = t <;> simp [hu]
      have hmore := ih (known ++ [t])
      rw [List.map_append, List.map_singleton, hrest] at hmore
      rw [if_neg fun h => ht (hamong.1 h), hmore, List.cons_removeAll, if_pos (by simpa using ht),
        List.eraseDups_cons, List.map_cons]

/-- A list of texts without duplicates, with more texts, is the list of all of them without
duplicates. -/
theorem union_eraseDups_text (known new : List Text) :
    union (known.eraseDups.map .text) (new.map .text) =
      ((known ++ new).eraseDups.map .text : List Value) := by
  have hsame : new.removeAll known.eraseDups = new.removeAll known := by
    simp [List.removeAll]
  rw [union, additions_text, hsame, List.eraseDups_append, List.map_append]

/-! ## Coherence -/

/-- Whether the lists and the status of a task agree with its operations. -/
structure IsCoherent (t : Task) : Prop where
  /-- The affected files are the paths of the operations, each where it occurs first. -/
  affected : ∃ paths : List Text, t.operations.flatMap Operation.paths = paths.map .text ∧
    t.affected = paths.eraseDups.map .text
  included : t.included.Nodup
  pending_iff : t.status = .pending ↔ t.operations = []

variable {t : Task}

theorem IsBlank.isCoherent (h : t.IsBlank) : t.IsCoherent := by
  refine ⟨⟨[], ?_, ?_⟩, ?_, ?_⟩
  · rw [h.operations]
    rfl
  · rw [h.affected]
    rfl
  · rw [h.included]
    exact List.nodup_nil
  · exact iff_of_true h.status h.operations

/-- The paths of operations that are recorded, as texts. -/
theorem flatMap_paths_values (ops : List MadeOperation) :
    (MadeOperation.values ops).flatMap Operation.paths =
      ((ops.flatMap fun op => op.1.paths).map .text : List Value) := by
  simp [MadeOperation.values, List.flatMap_map, List.map_flatMap]

namespace IsCoherent

theorem described (h : t.IsCoherent) (description : Value) :
    ({ t with description } : Task).IsCoherent := ⟨h.affected, h.included, h.pending_iff⟩

theorem addFiles (h : t.IsCoherent) (paths : List Text) :
    (t.addFiles (paths.map .text)).IsCoherent :=
  ⟨h.affected, nodup_union_text h.included paths, h.pending_iff⟩

theorem clear (h : t.IsCoherent) : ({ t with included := [] } : Task).IsCoherent :=
  ⟨h.affected, List.nodup_nil, h.pending_iff⟩

/-- Recording operations adds their paths, and the task is not pending after that. -/
theorem record (h : t.IsCoherent) (ops : List MadeOperation) :
    (t.record (MadeOperation.values ops)).IsCoherent := by
  unfold Task.record
  split
  · exact h
  · rename_i hops
    obtain ⟨paths, hpaths, haffected⟩ := h.affected
    refine ⟨⟨paths ++ ops.flatMap fun op => op.1.paths, ?_, ?_⟩, h.included, ?_⟩
    · simp only [List.flatMap_append, List.map_append, hpaths, flatMap_paths_values]
    · simp only [haffected, flatMap_paths_values, union_eraseDups_text]
    · refine iff_of_false (by simp) fun hnone => hops ?_
      rw [(List.append_eq_nil_iff.1 hnone).2]
      rfl

/-- A task that is settled was applied, so it has operations. -/
theorem settle (h : t.IsCoherent) (applied : t.status = .applied) {status : TaskStatus}
    (closed : status.IsClosed) : ({ t with status } : Task).IsCoherent := by
  refine ⟨h.affected, h.included, iff_of_false closed.ne_pending fun hnone => ?_⟩
  exact nomatch applied.symm.trans (h.pending_iff.2 hnone)

end IsCoherent

end Task

/-! ## Runs -/

namespace Session

variable {state : FilePath} {d : Location} {s : Session} {step : Ledger.Step}

/-- A session all of whose tasks are coherent, in memory and on the disk. -/
structure Coherent (state : FilePath) (d : Location) (s : Session) : Prop
    extends s.Stored state d where
  remembered : ∀ t, s.Remembers t → t.IsCoherent
  held : ∀ t, Holds s.desk.host.files d t → t.IsCoherent

/-- What a step saves is coherent, and so is the task that is current after it. -/
theorem Does.coherent {saved current : Option Task} (h : s.Does d step saved current)
    (hs : s.Coherent state d) {t : Task} (ht : saved = some t ∨ current = some t) :
    t.IsCoherent := by
  have current_coherent {u : Task} (hc : s.desk.ledger.current = some u) : u.IsCoherent :=
    hs.remembered u (.inl hc)
  cases h with
  | nothing => exact current_coherent (ht.resolve_left nofun)
  | takeUp storable recorded =>
    obtain rfl := Option.some.inj (ht.resolve_left nofun)
    exact hs.held _ ⟨storable, recorded⟩
  | describe storable recorded =>
    obtain rfl := Option.some.inj (or_self_iff.1 ht)
    exact (hs.held _ ⟨storable, recorded⟩).described _
  | create blank id_eq =>
    obtain rfl := Option.some.inj (or_self_iff.1 ht)
    exact blank.isCoherent
  | switch storable recorded =>
    obtain rfl := Option.some.inj (ht.resolve_left nofun)
    exact hs.held _ ⟨storable, recorded⟩
  | endCurrent => exact nomatch or_self_iff.1 ht
  | addFiles current =>
    obtain rfl := Option.some.inj (or_self_iff.1 ht)
    exact (current_coherent current).addFiles _
  | clearFiles current =>
    obtain rfl := Option.some.inj (or_self_iff.1 ht)
    exact (current_coherent current).clear
  | record current some_ops =>
    obtain rfl := Option.some.inj (or_self_iff.1 ht)
    exact (current_coherent current).record _
  | recordOnCopy copy some_ops =>
    rcases ht with ht | ht
    · obtain rfl := Option.some.inj ht
      exact (hs.remembered _ (.inr (List.mem_of_getElem? copy))).record _
    · exact current_coherent ht
  | settle warrants current applied closed =>
    obtain rfl := Option.some.inj (or_self_iff.1 ht)
    exact (current_coherent current).settle applied closed
  | reopen recorded => exact hs.held t (recorded t (ht.resolve_left nofun))

namespace Coherent

/-- **Every step keeps all tasks coherent**, whether it succeeds or fails. -/
theorem take (hs : s.Coherent state d) (hn : step.NamesTask) :
    (s.take step).2.Coherent state d := by
  obtain ⟨saved, current, hdoes, hmoves, -⟩ := hs.does_take hn
  refine ⟨hs.toStored.take hn, fun t ht => ?_, fun t ht => ?_⟩
  · rcases ht with hcurrent | hcopy
    · exact hdoes.coherent hs (.inr (hmoves.current_eq.symm.trans hcurrent))
    · rcases copy_cases hs.desk.store hs.desk.tasksDirectory hn hcopy with hkept | hheld | hrecorded
      · exact hs.remembered t (.inr hkept)
      · exact hs.held t hheld
      · obtain ⟨c, hc, ops, rfl⟩ := hrecorded
        exact (hs.remembered c (.inr hc)).record ops
  · rcases hmoves.holds_iff.1 ht with hsaved | ⟨hbefore, -⟩
    · exact hdoes.coherent hs (.inl hsaved)
    · exact hs.held t hbefore

theorem withFiles (hs : s.Coherent state d) {files : FileSystem}
    (h : files.entries.Perm s.desk.host.files.entries) : (s.withFiles files).Coherent state d :=
  ⟨hs.toStored.withFiles h, hs.remembered, fun t ht => hs.held t ((holds_of_perm h).1 ht)⟩

end Coherent

/-- Every run keeps all tasks coherent. -/
theorem Run.coherent {P : Session → Ledger.Step → Prop} (hP : ∀ s step, P s step → step.NamesTask)
    {history : List (Session × Ledger.Step)} {last : Session} (hrun : Run P s history last)
    (hs : s.Coherent state d) : last.Coherent state d := by
  induction hrun with
  | done => exact hs
  | step allowed _ ih => exact ih (hs.take (hP _ _ allowed))
  | relist same _ ih => exact ih (hs.withFiles same)

section Opened

variable {h : Host} {pointer : Option FilePath}

theorem coherent_opened (hf : h.IsFresh state d) (vcs : Vcs)
    (hp : ∀ p, pointer = some p → p = state.child pointerName) :
    (opened h state d vcs pointer).Coherent state d := by
  refine ⟨stored_opened hf vcs hp, fun t ht => ?_, fun t ht => ?_⟩
  · rcases ht with hcurrent | hcopy
    · exact nomatch hcurrent
    · exact nomatch hcopy
  · exact nomatch (entryAt_withTasks_record hf (recordName t.id)).symm.trans ht.2

/-- **All tasks are coherent.** A ledger is opened in an empty state directory, with a pointer or
without, and steps are taken on it that name tasks by their ids; before any of them directories may
list their entries in another order. After that the current task and the copies are coherent, and
every entry among the records is the record of a coherent task, which is found by its id. -/
theorem tasks_coherent (hf : h.IsFresh state d) (vcs : Vcs)
    (hp : ∀ p, pointer = some p → p = state.child pointerName)
    {history : List (Session × Ledger.Step)} {last : Session}
    (hrun : Run (fun _ step => step.NamesTask) (opened h state d vcs pointer) history last) :
    outcome (openIn (state.child tasksName) vcs pointer) h =
        (.ok (opened h state d vcs pointer).desk.ledger, (opened h state d vcs pointer).desk.host) ∧
      (∀ t, last.Remembers t → t.IsCoherent) ∧
      ∀ name e, last.desk.host.files.entryAt (d ++ [tasksName] ++ [name]) = some e →
        ∃ t : Task, t.IsCoherent ∧ name = recordName t.id ∧ e = .file (recordBytes t) ∧
          outcome (last.desk.ledger.find t.id) last.desk.host = (.ok t, last.desk.host) := by
  have hlast := hrun.coherent (fun _ _ hn => hn) (coherent_opened hf vcs hp)
  refine ⟨outcome_openIn_opened hf vcs hp, hlast.remembered, fun name e he => ?_⟩
  obtain ⟨t, ht, rfl, rfl⟩ := hlast.desk.store.records name e he
  exact ⟨t, hlast.held t ⟨ht, he⟩, rfl, rfl,
    outcome_find_of_recorded hlast.desk.store hlast.desk.tasksDirectory ht he⟩

end Opened

/-! ### A copy without the files of the current task -/

/-- A file is renamed, and removed where it had been. -/
def movedFile : List MadeOperation := ⟨.rename ['x'] ['y'], by decide⟩ :: removedFile

/-- A task is started and copied; operations are recorded on the task and on the copy, and the task
gains a file. -/
def partingSteps : List Ledger.Step :=
  copyingSteps ++ [.record movedFile, .addFiles [['f'], ['f']], .recordOnCopy 0 removedFile]

/-- The paths and files of a task, and its status. -/
def listed (t : Task) : List Text × List Text × TaskStatus :=
  (t.affected.map Value.plain, t.included.map Value.plain, t.status)

/-- The task in memory and the one of its record are both coherent, though they differ. -/
theorem tasks_coherent_partingSteps :
    let state := FilePath.ofText ['l']
    let start := opened linkedStateHost state [['h'], ['s']] (.noting [] []) none
    let last := (play partingSteps start).2
    linkedStateHost.IsFresh state [['h'], ['s']] ∧
      Run (fun _ step => step.NamesTask) start (trace partingSteps start) last ∧
      (∃ t, last.desk.ledger.current = some t ∧ t.IsCoherent ∧
        listed t = ([['x'], ['y']], [['f']], .applied)) ∧
      ∃ u : Task, last.desk.host.files.entryAt
          [['h'], ['s'], tasksName, recordName ['a', '1']] = some (.file (recordBytes u)) ∧
        u.IsCoherent ∧ u.operations.map Operation.kind = [.delete] := by
  intro state start last
  have hp : ∀ p, none = some p → p = state.child pointerName := nofun
  have hnames : ∀ step ∈ partingSteps, step.NamesTask := by
    simp [partingSteps, copyingSteps, Ledger.Step.NamesTask]
  have hrun : Run (fun _ step => step.NamesTask) start (trace partingSteps start) last :=
    run_play fun x hx => hnames x.2 (mem_of_mem_trace hx)
  obtain ⟨-, hremembered, hrecords⟩ := tasks_coherent isFresh_linkedStateHost _ hp hrun
  have hlisted : last.desk.ledger.current.map listed =
      some ([['x'], ['y']], [['f']], .applied) := by decide +kernel
  obtain ⟨t, hcurrent, ht⟩ := Option.map_eq_some_iff.1 hlisted
  have hthere : (last.desk.host.files.entryAt
      [['h'], ['s'], tasksName, recordName ['a', '1']]).isSome := by decide +kernel
  obtain ⟨e, he⟩ := Option.isSome_iff_exists.1 hthere
  obtain ⟨u, hu, hname, rfl, hfind⟩ := hrecords _ _ he
  have hkinds : recordedKinds last ['a', '1'] = some [.delete] := by decide +kernel
  obtain ⟨v, hv, hvkinds⟩ := exists_of_recordedKinds hkinds
  rw [recordName_inj hname, hfind] at hv
  obtain rfl : u = v := Except.ok.inj hv
  exact ⟨isFresh_linkedStateHost, hrun, ⟨t, hcurrent, hremembered t (.inl hcurrent), ht⟩, u, he, hu,
    hvkinds⟩

end Session

end ReplyLedger
