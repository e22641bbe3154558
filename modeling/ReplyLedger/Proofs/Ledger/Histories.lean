import ReplyLedger.Proofs.Ledger.Restart

/-!
# The histories of tasks

What is recorded on a task stays: the operations and the affected files that a step finds in a record
are the first ones of those that it leaves there (`histories_grow`), in every run and whatever the
steps before it were, if the step does not save a task in memory that lacks what its record has by
then (`InStep`): nothing is lost from the records (`Desk.Grows`) if the task that is saved continues
the one of its record (`Desk.Moves.grows`). `history_lost_staleCurrent` is a run in which a step saves
a task that does not, and a record loses an operation.
-/

namespace ReplyLedger

open FileSystem Ledger LedgerAction Json

/-! ## Tasks that go on -/

namespace Task

/-- A later state of the same task: nothing that was recorded is lost, and nothing is put before
it. -/
structure IsContinuedBy (t u : Task) : Prop where
  id_eq : u.id = t.id
  operations : t.operations <+: u.operations
  affected : t.affected <+: u.affected

namespace IsContinuedBy

variable {t u v : Task}

theorem refl (t : Task) : t.IsContinuedBy t := ⟨rfl, List.prefix_refl _, List.prefix_refl _⟩

theorem trans (h : t.IsContinuedBy u) (h' : u.IsContinuedBy v) : t.IsContinuedBy v :=
  ⟨h'.id_eq.trans h.id_eq, h.operations.trans h'.operations, h.affected.trans h'.affected⟩

end IsContinuedBy

/-- Recording operations continues a task. -/
theorem isContinuedBy_record (t : Task) (ops : List (Operation Value)) :
    t.IsContinuedBy (t.record ops) := by
  refine ⟨t.record_id ops, ?_, ?_⟩
  all_goals
    unfold record
    split
    · exact List.prefix_refl _
    · exact List.prefix_append _ _

end Task

/-! ## Records that go on -/

namespace Desk

/-- The records of the first file system are continued in the second. -/
def Grows (d : Location) (before after : FileSystem) : Prop :=
  ∀ t : Task, t.IsStorable → Recorded before d t →
    ∃ u : Task, u.IsStorable ∧ Recorded after d u ∧ t.IsContinuedBy u

theorem Grows.refl (d : Location) (fs : FileSystem) : Grows d fs fs :=
  fun t ht hr => ⟨t, ht, hr, .refl t⟩

theorem Grows.trans {fs gs hs : FileSystem} (h : Grows d fs gs) (h' : Grows d gs hs) :
    Grows d fs hs := by
  intro t ht hr
  obtain ⟨u, hu, hru, hc⟩ := h t ht hr
  obtain ⟨v, hv, hrv, hc'⟩ := h' u hu hru
  exact ⟨v, hv, hrv, hc.trans hc'⟩

/-- Nothing is lost if the task that is saved continues the one of its record. -/
theorem Moves.grows {state : FilePath} {d : Location} {before desk : Desk}
    {saved current : Option Task} (h : Moves state d before saved current desk)
    (hc : ∀ t r, saved = some t → Holds before.host.files d r → r.id = t.id → r.IsContinuedBy t) :
    Grows d before.host.files desk.host.files := by
  intro r hr hrec
  by_cases hsame : ∃ t, saved = some t ∧ r.id = t.id
  · obtain ⟨t, ht, hid⟩ := hsame
    obtain ⟨hstorable, hrecorded⟩ := h.holds_iff.2 (.inl ht)
    exact ⟨t, hstorable, hrecorded, hc t r ht ⟨hr, hrec⟩ hid⟩
  · have hother : ∀ t, saved = some t → t.id ≠ r.id := fun t ht hid => hsame ⟨t, ht, hid.symm⟩
    obtain ⟨hstorable, hrecorded⟩ := h.holds_iff.2 (.inr ⟨⟨hr, hrec⟩, hother⟩)
    exact ⟨r, hstorable, hrecorded, .refl r⟩

end Desk

/-! ## Steps that are in step -/

namespace Session

/-- A task in memory has all that its record has. -/
def IsUpToDate (s : Session) (t : Task) : Prop :=
  ∀ r, (outcome (s.desk.ledger.find t.id) s.desk.host).1 = .ok r → r.IsContinuedBy t

/-- A step saves no task that lacks what its record has: the current task or the copy that it works
on is up to date, and the id that a new task would get is not in use. -/
def InStep (s : Session) : Ledger.Step → Prop
  | .start _ _ => ∀ id, (outcome Action.newId s.desk.host).1 = .ok id →
    ∃ f, (outcome (s.desk.ledger.find id) s.desk.host).1 = .error f
  | .addFiles _ | .clearFiles | .record _ | .commit | .undo _ =>
    ∀ t, s.desk.ledger.current = some t → s.IsUpToDate t
  | .recordOnCopy index _ => ∀ t, s.copies[index]? = some t → s.IsUpToDate t
  | .switch _ | .endCurrent | .load _ | .reopen => True

variable {state : FilePath} {d : Location} {s : Session} {step : Ledger.Step}

/-- A task that is up to date, and what continues it, continues the task of its record. -/
theorem Stored.isContinuedBy (hs : s.Stored state d) {c t r : Task} (hc : s.IsUpToDate c)
    (ht : c.IsContinuedBy t) (hr : Holds s.desk.host.files d r) (hid : r.id = t.id) :
    r.IsContinuedBy t := by
  have hfind := outcome_find_of_recorded hs.desk.store hs.desk.tasksDirectory hr.1 hr.2
  refine (hc r ?_).trans ht
  rw [← ht.id_eq, ← hid, hfind]

/-- **A step that is in step loses nothing.** -/
theorem Stored.grows_take (hs : s.Stored state d) (hn : step.NamesTask) (hi : s.InStep step) :
    Desk.Grows d s.desk.host.files (s.take step).2.desk.host.files := by
  obtain ⟨saved, current, hdoes, hmoves, -⟩ := hs.does_take hn
  refine hmoves.grows fun t r ht hr hid => ?_
  cases hdoes with
  | nothing => simp at ht
  | takeUp => simp at ht
  | switch => simp at ht
  | endCurrent => simp at ht
  | reopen => simp at ht
  | describe storable recorded =>
    obtain rfl := Option.some.inj ht
    obtain rfl := eq_of_recorded hs.desk.store hr.1 hr.2 storable recorded hid
    exact ⟨rfl, List.prefix_refl _, List.prefix_refl _⟩
  | create blank id_eq =>
    -- the id that a new task gets is not in use
    obtain rfl := Option.some.inj ht
    obtain ⟨f, hf⟩ := hi _ id_eq
    rw [← hid, outcome_find_of_recorded hs.desk.store hs.desk.tasksDirectory hr.1 hr.2] at hf
    simp at hf
  | addFiles current =>
    obtain rfl := Option.some.inj ht
    exact hs.isContinuedBy (hi _ current) ⟨rfl, List.prefix_refl _, List.prefix_refl _⟩ hr hid
  | clearFiles current =>
    obtain rfl := Option.some.inj ht
    exact hs.isContinuedBy (hi _ current) ⟨rfl, List.prefix_refl _, List.prefix_refl _⟩ hr hid
  | record current =>
    obtain rfl := Option.some.inj ht
    exact hs.isContinuedBy (hi _ current) (Task.isContinuedBy_record _ _) hr hid
  | recordOnCopy copy =>
    obtain rfl := Option.some.inj ht
    exact hs.isContinuedBy (hi _ copy) (Task.isContinuedBy_record _ _) hr hid
  | @settle _ call c status warrants current =>
    obtain rfl := Option.some.inj ht
    have hc : s.IsUpToDate c := by
      cases warrants with
      | commit => exact hi c current
      | undo => exact hi c current
    exact hs.isContinuedBy hc ⟨rfl, List.prefix_refl _, List.prefix_refl _⟩ hr hid

/-- A copy on which operations have just been recorded is up to date. -/
theorem Stored.isUpToDate_recordOnCopy (hs : s.Stored state d) {index : Nat} {t : Task}
    (hcopy : s.copies[index]? = some t) {ops : List MadeOperation}
    (hops : (MadeOperation.values ops).isEmpty = false) :
    (s.take (.recordOnCopy index ops)).2.IsUpToDate (t.record (MadeOperation.values ops)) := by
  have ht := (hs.copies t (List.mem_of_getElem? hcopy)).record ops
  have hsave := outcome_save hs.desk.store hs.desk.tasksDirectory ht
  have htake : (s.take (.recordOnCopy index ops)).2.desk =
      ⟨withRecord s.desk.host d (t.record (MadeOperation.values ops)), s.desk.ledger⟩ := by
    simp only [Session.take, hcopy, act, recordOn, hops]
    rw [if_neg Bool.false_ne_true, outcome_bind_of_ok (outcome_ledger _),
      outcome_bind_of_ok (outcome_lift_of_eq hsave)]
    rfl
  intro r hr
  rw [htake] at hr
  have hfind := outcome_find_of_recorded (hs.desk.store.save ht) hs.desk.tasksDirectory ht
    (recorded_withRecord hs.desk.store ht)
  rw [hfind] at hr
  obtain rfl := Except.ok.inj hr
  exact .refl _

/-- All steps are in step when they are taken one after the other. -/
def StaysInStep : Session → List Ledger.Step → Prop
  | _, [] => True
  | s, step :: rest => s.InStep step ∧ StaysInStep (s.take step).2 rest

/-- A run of steps that are in step loses nothing. -/
theorem Stored.grows_play (hs : s.Stored state d) {steps : List Ledger.Step}
    (hn : ∀ step ∈ steps, step.NamesTask) (hi : s.StaysInStep steps) :
    Desk.Grows d s.desk.host.files (Session.play steps s).2.desk.host.files := by
  induction steps generalizing s with
  | nil => exact .refl d _
  | cons step rest ih =>
    have hstep := hn step List.mem_cons_self
    rw [play_cons]
    refine (hs.grows_take hstep hi.1).trans ?_
    exact ih (hs.take hstep) (fun u hu => hn u (List.mem_cons_of_mem _ hu)) hi.2

theorem stored_fresh {h : Host} (hf : h.IsFresh state d) (vcs : Vcs) :
    Stored state d ⟨⟨withTasks h d, fresh state vcs⟩, []⟩ :=
  ⟨(inOrder_fresh hf vcs).kept.stored, by simp⟩

/-- **Histories grow.** On a ledger that was opened in an empty state directory, after any steps, the
operations and the affected files that a record has before one more step are the first ones of those
that it has after it, for every task, if that step saves no task that lacks what its record has. -/
theorem histories_grow {h : Host} (hf : h.IsFresh state d) (vcs : Vcs) {steps : List Ledger.Step}
    {step : Ledger.Step} (hn : ∀ u ∈ steps ++ [step], u.NamesTask) :
    let s := (play steps ⟨⟨withTasks h d, fresh state vcs⟩, []⟩).2
    s.InStep step → ∀ id, '/' ∉ id → ∀ t,
      (outcome (s.desk.ledger.find id) s.desk.host).1 = .ok t →
      ∃ u, (outcome ((s.take step).2.desk.ledger.find id) (s.take step).2.desk.host).1 = .ok u ∧
        t.operations <+: u.operations ∧ t.affected <+: u.affected := by
  intro s hi id hid t ht
  have hs : s.Stored state d :=
    (stored_fresh hf vcs).play fun u hu => hn u (List.mem_append_left _ hu)
  have hstep : step.NamesTask := hn step (by simp)
  obtain ⟨hstorable, rfl, hrec⟩ := recorded_of_find hs.desk.store hs.desk.tasksDirectory hid ht
  obtain ⟨u, hu, hurec, hc⟩ := hs.grows_take hstep hi t hstorable hrec
  have hafter := (hs.take hstep).desk
  refine ⟨u, ?_, hc.operations, hc.affected⟩
  rw [← hc.id_eq, outcome_find_of_recorded hafter.store hafter.tasksDirectory hu hurec]

/-! ### A copy of the current task -/

theorem isFresh_linkedStateHost :
    linkedStateHost.IsFresh (FilePath.ofText ['l']) [['h'], ['s']] := by
  have hids : ∀ id ∈ linkedStateHost.ids.given, id.all fun c => hexDigits.contains c := by decide
  refine ⟨⟨FilePath.isProper_ofText (by decide), by decide, rfl⟩, by decide, ?_⟩
  refine ⟨fun id hid c hc => ?_, List.forall_mem_nil _, .inl rfl⟩
  simpa using List.all_eq_true.1 (hids id hid) c hc

/-- A ledger in the state directory that a link leads to. -/
def linkedSession : Session :=
  ⟨⟨withTasks linkedStateHost [['h'], ['s']], fresh (FilePath.ofText ['l']) (.noting [] [])⟩, []⟩

/-- A task is started, and a copy of it is loaded. -/
def copyingSteps : List Ledger.Step := [.start ['A'] none, .load ['a', '1']]

/-- The kinds of the operations in the record with an id. -/
def recordedKinds (s : Session) (id : Text) : Option (List Operation.Kind) :=
  (outcome (s.desk.ledger.find id) s.desk.host).1.toOption.map fun t =>
    t.operations.map Operation.kind

theorem exists_of_recordedKinds {id : Text} {kinds : List Operation.Kind}
    (h : recordedKinds s id = some kinds) : ∃ t : Task,
      (outcome (s.desk.ledger.find id) s.desk.host).1 = .ok t ∧
        t.operations.map Operation.kind = kinds := by
  rw [recordedKinds] at h
  rcases hfind : (outcome (s.desk.ledger.find id) s.desk.host).1 with f | t
  · simp [hfind, Except.toOption] at h
  · exact ⟨t, rfl, by simpa [hfind, Except.toOption] using h⟩

/-- What is recorded on the copy goes behind what has been recorded on it. -/
theorem histories_grow_copyInStep :
    let s := (play (copyingSteps ++ [.recordOnCopy 0 removedFile]) linkedSession).2
    let after := (s.take (.recordOnCopy 0 madeFile)).2
    s.InStep (.recordOnCopy 0 madeFile) ∧
      ∃ t u, (outcome (s.desk.ledger.find ['a', '1']) s.desk.host).1 = .ok t ∧
        (outcome (after.desk.ledger.find ['a', '1']) after.desk.host).1 = .ok u ∧
        t.operations.map Operation.kind = [.delete] ∧ t.operations <+: u.operations := by
  intro s after
  have hid : '/' ∉ ['a', '1'] := by decide
  have hn : ∀ u ∈ copyingSteps ++ [.recordOnCopy 0 removedFile] ++ [.recordOnCopy 0 madeFile],
      u.NamesTask := by
    simp [copyingSteps, Ledger.Step.NamesTask]
  have hkinds : recordedKinds s ['a', '1'] = some [.delete] := by decide +kernel
  obtain ⟨t, ht, htkinds⟩ := exists_of_recordedKinds hkinds
  have hstep : s.InStep (.recordOnCopy 0 madeFile) := by
    have hstored := (stored_fresh isFresh_linkedStateHost (.noting [] [])).play
      fun u (hu : u ∈ copyingSteps) => hn u (by simp [hu])
    have hcopied : (play copyingSteps linkedSession).2.copies[0]?.isSome := by decide +kernel
    obtain ⟨c, hc⟩ := Option.isSome_iff_exists.1 hcopied
    intro u hu
    have hrecorded : s.copies[0]? = some (c.record (MadeOperation.values removedFile)) := by
      change ((play copyingSteps linkedSession).2.take (.recordOnCopy 0 removedFile)).2.copies[0]? = _
      simp only [Session.take, hc]
      rw [List.getElem?_set_self (List.getElem?_eq_some_iff.1 hc).1]
    obtain rfl := Option.some.inj (hrecorded.symm.trans hu)
    exact hstored.isUpToDate_recordOnCopy hc rfl
  obtain ⟨u, hu, hops, -⟩ := histories_grow isFresh_linkedStateHost (.noting [] []) hn hstep _ hid t ht
  exact ⟨hstep, t, u, ht, hu, htkinds, hops⟩

/-- What is recorded on the current task takes the place of what was recorded on the copy. -/
theorem history_lost_staleCurrent :
    let s := (play (copyingSteps ++ [.recordOnCopy 0 removedFile]) linkedSession).2
    let after := (s.take (.record madeFile)).2
    ∃ t u, (outcome (s.desk.ledger.find ['a', '1']) s.desk.host).1 = .ok t ∧
      (outcome (after.desk.ledger.find ['a', '1']) after.desk.host).1 = .ok u ∧
      ¬ t.operations <+: u.operations := by
  intro s after
  have hbefore : recordedKinds s ['a', '1'] = some [.delete] := by decide +kernel
  have hafter : recordedKinds after ['a', '1'] = some [.create] := by decide +kernel
  obtain ⟨t, ht, htkinds⟩ := exists_of_recordedKinds hbefore
  obtain ⟨u, hu, hukinds⟩ := exists_of_recordedKinds hafter
  refine ⟨t, u, ht, hu, fun hops => ?_⟩
  have hkinds := hops.map Operation.kind
  rw [htkinds, hukinds] at hkinds
  exact absurd hkinds (by decide)

end Session

end ReplyLedger
