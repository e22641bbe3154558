import ReplyLedger.Proofs.Ledger.Histories

/-!
# Tasks are settled for what was recorded on them

A task is open if it is applied, in memory as the current one or in its record (`Desk.IsOpen`): such a
task can be committed or undone. Copies do not count, since they are saved only when operations are
recorded on them. Settling a task closes it, and nothing but recording operations opens one
(`Stored.opens_take`): what a step puts in memory comes from a record, and what it puts in a record
comes from memory, so no task that was committed or undone comes back as an applied one.

So a task is settled at most as often as operations were recorded on it, in every run
(`Session.Balanced`, `settled_as_recorded`).
-/

namespace ReplyLedger

open FileSystem Ledger LedgerAction

/-- Whether an applied task with an id is the current one, or in the records. -/
def Desk.IsOpen (d : Location) (desk : Desk) (id : Text) : Prop :=
  ∃ t : Task, t.id = id ∧ t.status = .applied ∧
    (desk.ledger.current = some t ∨ t.IsStorable ∧ Recorded desk.host.files d t)

namespace Session

/-- The ids of the tasks that a step commits or undoes. -/
def settled (s : Session) (step : Ledger.Step) : List Text :=
  if step.settles (s.take step).1 then (s.desk.ledger.current.map Task.id).toList else []

/-- The ids of the tasks that a step records operations on. -/
def recorded (s : Session) : Ledger.Step → List Text
  | .record ops => if ops.isEmpty then [] else (s.desk.ledger.current.map Task.id).toList
  | .recordOnCopy index ops => if ops.isEmpty then [] else (s.copies[index]?.map Task.id).toList
  | _ => []

/-- What the steps of a run come to when they are taken one after the other. -/
def collect {α : Type} (f : Session → Ledger.Step → List α) : List Ledger.Step → Session → List α
  | [], _ => []
  | step :: rest, s => f s step ++ collect f rest (s.take step).2

variable {state : FilePath} {d : Location} {s : Session} {step : Ledger.Step}

/-! ## Opening and closing -/

/-- A task that a step puts in memory or in a record was in one of them before, if it is applied, or
operations have been recorded on it. -/
theorem Does.opens {saved current : Option Task} (h : s.Does d step saved current) {t : Task}
    (ht : saved = some t ∨ current = some t) (hs : t.status = .applied) :
    s.desk.IsOpen d t.id ∨ t.id ∈ s.recorded step := by
  have current_open {u : Task} (hc : s.desk.ledger.current = some u) (hu : u.status = .applied) :
      s.desk.IsOpen d u.id := ⟨u, rfl, hu, .inl hc⟩
  have record_open {u : Task} (hu : u.IsStorable) (hr : Recorded s.desk.host.files d u)
      (happlied : u.status = .applied) : s.desk.IsOpen d u.id := ⟨u, rfl, happlied, .inr ⟨hu, hr⟩⟩
  cases h with
  | nothing =>
    rcases ht with ht | ht
    · exact nomatch ht
    · exact .inl (current_open ht hs)
  | takeUp storable recorded =>
    obtain rfl := Option.some.inj (ht.resolve_left nofun)
    exact .inl (record_open storable recorded hs)
  | describe storable recorded =>
    obtain rfl := Option.some.inj (or_self_iff.1 ht)
    have hopen := record_open storable recorded hs
    exact .inl hopen
  | create blank id_eq =>
    obtain rfl := Option.some.inj (or_self_iff.1 ht)
    exact nomatch blank.status.symm.trans hs
  | switch storable recorded =>
    obtain rfl := Option.some.inj (ht.resolve_left nofun)
    exact .inl (record_open storable recorded hs)
  | endCurrent => exact nomatch or_self_iff.1 ht
  | addFiles current =>
    obtain rfl := Option.some.inj (or_self_iff.1 ht)
    have hopen := current_open current hs
    exact .inl hopen
  | clearFiles current =>
    obtain rfl := Option.some.inj (or_self_iff.1 ht)
    have hopen := current_open current hs
    exact .inl hopen
  | record current some_ops =>
    obtain rfl := Option.some.inj (or_self_iff.1 ht)
    rw [Task.record_id]
    exact .inr (by simp [recorded, some_ops, current])
  | recordOnCopy copy some_ops =>
    rcases ht with ht | ht
    · obtain rfl := Option.some.inj ht
      rw [Task.record_id]
      exact .inr (by simp [recorded, some_ops, copy])
    · exact .inl (current_open ht hs)
  | settle warrants current applied closed =>
    obtain rfl := Option.some.inj (or_self_iff.1 ht)
    exact absurd hs closed.ne_applied
  | reopen recorded =>
    obtain ⟨hu, hr⟩ := recorded t (ht.resolve_left nofun)
    exact .inl (record_open hu hr hs)

/-- **A step opens no tasks but those that it records operations on.** -/
theorem Stored.opens_take (hs : s.Stored state d) (hn : step.NamesTask) {id : Text}
    (ho : (s.take step).2.desk.IsOpen d id) : s.desk.IsOpen d id ∨ id ∈ s.recorded step := by
  obtain ⟨saved, current, hdoes, hmoves, -⟩ := hs.does_take hn
  obtain ⟨t, rfl, happlied, hcurrent | ⟨ht, hr⟩⟩ := ho
  · exact hdoes.opens (.inr (hmoves.current_eq.symm.trans hcurrent)) happlied
  · rcases hmoves.recorded ht hr with hsaved | hbefore
    · exact hdoes.opens (.inl hsaved) happlied
    · exact .inl ⟨t, rfl, happlied, .inr ⟨ht, hbefore⟩⟩

/-- A task that is settled was open before, and is no longer open. -/
theorem Settling.closes {done : Prop} {after : Desk} (hs : s.Stored state d)
    (h : s.Settling d step done after) (hdone : done) :
    ∃ t, s.desk.ledger.current = some t ∧ s.desk.IsOpen d t.id ∧ ¬ after.IsOpen d t.id := by
  cases h with
  | unasked spared git => exact hdone.elim
  | refused warrants spared asked => exact hdone.elim
  | @saved call host vcs t status warrants spared asked current applied closed =>
    refine ⟨t, current, ⟨t, rfl, applied, .inl current⟩, ?_⟩
    have hstored := hs.desk.spared spared vcs
    have ht := (hs.desk.inMemory t current).setStatus status
    have hrecorded := recorded_withRecord hstored.store ht
    rintro ⟨u, hid, happlied, hcurrent | ⟨hu, hrec⟩⟩
    · obtain rfl := Option.some.inj hcurrent
      exact closed.ne_applied happlied
    · obtain rfl := eq_of_recorded (hstored.store.save ht) hu hrec ht hrecorded hid
      exact closed.ne_applied happlied

/-! ## Recording and settling -/

/-- A task is settled at most once in a step, and then it was open before it and no longer is. -/
theorem Stored.count_settled (hs : s.Stored state d) (step : Ledger.Step) (id : Text) :
    (s.settled step).count id = 0 ∨
      (s.settled step).count id = 1 ∧ s.desk.IsOpen d id ∧ ¬ (s.take step).2.desk.IsOpen d id := by
  by_cases hsettles : step.settles (s.take step).1
  swap
  · rw [settled, if_neg hsettles]
    exact .inl rfl
  obtain ⟨t, hc, hopen, hclosed⟩ : ∃ t, s.desk.ledger.current = some t ∧ s.desk.IsOpen d t.id ∧
      ¬ (s.take step).2.desk.IsOpen d t.id := by
    cases step with
    | commit => exact hs.settling_commit.closes hs hsettles
    | undo confirm => exact (hs.settling_undo confirm).closes hs hsettles
    | _ => simp [Step.settles] at hsettles
  have hsettled : s.settled step = [t.id] := by
    rw [settled, if_pos hsettles, hc]
    rfl
  rw [hsettled]
  by_cases hid : t.id = id
  · subst hid
    exact .inr ⟨List.count_singleton_self, hopen, hclosed⟩
  · exact .inl (List.count_eq_zero.2 fun hmem => hid (List.mem_singleton.1 hmem).symm)

/-- No task has been settled more often than operations have been recorded on it, and one that is
open less often. -/
def Balanced (d : Location) (s : Session) (settled recorded : List Text) : Prop :=
  ∀ id, settled.count id ≤ recorded.count id ∧
    (s.desk.IsOpen d id → settled.count id < recorded.count id)

/-- **A step keeps the balance**: what it settles was open, and what it opens it records on. -/
theorem Balanced.take {earlier earned : List Text} (hb : s.Balanced d earlier earned)
    (hs : s.Stored state d) (hn : step.NamesTask) :
    (s.take step).2.Balanced d (earlier ++ s.settled step) (earned ++ s.recorded step) := by
  intro id
  obtain ⟨hle, hlt⟩ := hb id
  have hopened (ho : (s.take step).2.desk.IsOpen d id) :
      earlier.count id < earned.count id + (s.recorded step).count id := by
    rcases hs.opens_take hn ho with ho | hmem
    · exact Nat.lt_add_right _ (hlt ho)
    · have hpos := List.count_pos_iff.2 hmem
      omega
  rw [List.count_append, List.count_append]
  rcases hs.count_settled step id with hnone | ⟨hone, hopen, hclosed⟩
  · rw [hnone]
    exact ⟨by omega, hopened⟩
  · have hbefore := hlt hopen
    exact ⟨by omega, fun ho => absurd ho hclosed⟩

/-- A run keeps the balance, and what is stored in order. -/
theorem Balanced.play {earlier earned : List Text} (hb : s.Balanced d earlier earned)
    (hs : s.Stored state d) {steps : List Ledger.Step} (hn : ∀ step ∈ steps, step.NamesTask) :
    (play steps s).2.Stored state d ∧ (play steps s).2.Balanced d
      (earlier ++ collect Session.settled steps s) (earned ++ collect recorded steps s) := by
  induction steps generalizing s earlier earned with
  | nil => simpa [collect] using ⟨hs, hb⟩
  | cons step rest ih =>
    have hstep := hn step List.mem_cons_self
    have hrest := ih (hb.take hs hstep) (hs.take hstep) fun u hu => hn u (List.mem_cons_of_mem _ hu)
    rw [play_cons, collect, collect]
    rwa [List.append_assoc, List.append_assoc] at hrest

/-! ## Ledgers in an empty state directory -/

/-- The session with a ledger that has been opened in an empty state directory. -/
def opened (h : Host) (state : FilePath) (d : Location) (vcs : Vcs) (pointer : Option FilePath) :
    Session := ⟨⟨withTasks h d, { fresh state vcs with pointer }⟩, []⟩

variable {h : Host} {pointer : Option FilePath}

theorem outcome_openIn_opened (hf : h.IsFresh state d) (vcs : Vcs)
    (hp : ∀ p, pointer = some p → p = state.child pointerName) :
    outcome (openIn (state.child tasksName) vcs pointer) h =
      (.ok (opened h state d vcs pointer).desk.ledger, (opened h state d vcs pointer).desk.host) := by
  cases pointer with
  | none =>
    exact outcome_openIn_unpointed vcs (Action.outcome_ensureDirectories_vacant hf.leads
      isName_tasksName (entryAt_eq_none_of_empty hf tasksName))
  | some p =>
    obtain rfl := hp p rfl
    exact outcome_openIn_fresh hf vcs

theorem stored_opened (hf : h.IsFresh state d) (vcs : Vcs)
    (hp : ∀ p, pointer = some p → p = state.child pointerName) :
    (opened h state d vcs pointer).Stored state d := by
  have hfresh := inOrder_fresh hf vcs
  refine ⟨⟨hfresh.store, hfresh.supplied, rfl, nofun, ?_⟩, nofun⟩
  cases pointer with
  | none => exact .inl rfl
  | some p =>
    obtain rfl := hp p rfl
    exact .inr hfresh.kept

theorem balanced_opened (hf : h.IsFresh state d) (vcs : Vcs) :
    (opened h state d vcs pointer).Balanced d [] [] := by
  refine fun id => ⟨Nat.le_refl _, ?_⟩
  rintro ⟨t, -, -, hcurrent | ⟨-, hr⟩⟩
  · exact nomatch hcurrent
  · exact nomatch (entryAt_withTasks_record hf (recordName t.id)).symm.trans hr

/-- **Tasks are settled for what was recorded on them.** On a ledger that was opened in an empty state
directory, with a pointer or without, after any steps: one more step asks the runner only to commit
or to reset for the current task, if that is applied and the user agrees to the reset; the steps up to
it have settled no task more often than operations were recorded on it; and a commit or an undo that
fails, or that the user declines, leaves the tasks in memory and all files as they were. -/
theorem settled_as_recorded (hf : h.IsFresh state d) (vcs : Vcs)
    (hp : ∀ p, pointer = some p → p = state.child pointerName) {steps : List Ledger.Step}
    {step : Ledger.Step} (hn : ∀ u ∈ steps ++ [step], u.NamesTask) :
    let start := opened h state d vcs pointer
    outcome (openIn (state.child tasksName) vcs pointer) h =
        (.ok start.desk.ledger, start.desk.host) ∧
      let s := (play steps start).2
      let answer := (s.take step).1
      let after := (s.take step).2
      ((s.desk.Unasked after.desk ∧ ¬ step.settles answer) ∨
        ∃ call, s.Warrants step call ∧ s.desk.Asked call (step.settles answer) after.desk) ∧
      (∀ id, (collect settled (steps ++ [step]) start).count id ≤
        (collect recorded (steps ++ [step]) start).count id) ∧
      ((step = .commit ∨ ∃ confirm, step = .undo confirm) → ¬ step.settles answer →
        after.desk.ledger.current = s.desk.ledger.current ∧ after.copies = s.copies ∧
          after.desk.host.files = s.desk.host.files) := by
  intro start
  have hstored := stored_opened hf vcs hp
  have hbalanced : start.Balanced d [] [] := balanced_opened hf vcs
  have hs := (hbalanced.play hstored fun u hu => hn u (List.mem_append_left _ hu)).1
  have hall := (hbalanced.play hstored hn).2
  obtain ⟨-, -, -, -, hasks⟩ := hs.does_take (hn step (by simp))
  exact ⟨outcome_openIn_opened hf vcs hp, hasks, fun id => (hall id).1, hs.untouched_take⟩

/-- Operations are recorded on a task, and it is not undone. -/
def decliningSteps : List Ledger.Step :=
  [.start ['A'] none, .record removedFile, .undo (.always false)]

/-- The task is committed, once for what was recorded on it. -/
theorem settled_as_recorded_decliningSteps :
    let state := FilePath.ofText ['l']
    let start := opened linkedStateHost state [['h'], ['s']] (.noting [] []) none
    let s := (play decliningSteps start).2
    let all := decliningSteps ++ [.commit]
    linkedStateHost.IsFresh state [['h'], ['s']] ∧ (∀ u ∈ all, u.NamesTask) ∧
      (collect settled all start).count ['a', '1'] = 1 ∧
      (collect settled all start).count ['a', '1'] ≤ (collect recorded all start).count ['a', '1'] ∧
      ∃ call, s.Warrants .commit call ∧ s.desk.Asked call True (s.take .commit).2.desk := by
  intro state start s all
  have hn : ∀ u ∈ all, u.NamesTask := by simp [all, decliningSteps, Ledger.Step.NamesTask]
  have hsettles : Step.settles .commit (s.take .commit).1 = true := by decide +kernel
  have hp : ∀ p, none = some p → p = state.child pointerName := by simp
  obtain ⟨-, hcalls, hcount, -⟩ :=
    settled_as_recorded isFresh_linkedStateHost (.noting [] []) hp hn
  refine ⟨isFresh_linkedStateHost, hn, by decide +kernel, hcount _, ?_⟩
  rcases hcalls with ⟨-, hno⟩ | ⟨call, hwarrants, hasked⟩
  · exact absurd hsettles hno
  · exact ⟨call, hwarrants, hasked.congr (iff_of_true hsettles trivial)⟩

end Session

end ReplyLedger
