import ReplyLedger.Proofs.Ledger.Settling
import ReplyLedger.Proofs.Ledger.Starting

/-!
# What steps do

Every step of a session does one of a few things to the tasks that the ledger holds (`Session.Does`):
it saves one task or none, and there is a current task after it, or none. `Stored.does_take` says so of
all steps at once, whether they succeed or fail, and whether the ledger has a pointer or not; it says
what has become of the records, of the pointer and of everything else on the host (`Desk.Moves`), and
what has been asked of the runner (`Session.Asks`). What holds of a step, and of a whole run, follows
from it by cases.
-/

namespace ReplyLedger

open FileSystem Ledger LedgerAction

namespace Session

/-- What a step can do: the task that it saves, and the one that is current after it. -/
inductive Does (d : Location) (s : Session) : Ledger.Step → Option Task → Option Task → Prop
  /-- A step that fails, or has nothing to do. -/
  | nothing {step : Ledger.Step} : Does d s step none s.desk.ledger.current
  /-- A task whose record is there is taken up. -/
  | takeUp {name : Text} {description : Option Text} {t : Task} (storable : t.IsStorable)
      (recorded : Recorded s.desk.host.files d t) : Does d s (.start name description) none (some t)
  /-- A task whose record is there is taken up and gets a description. -/
  | describe {name : Text} {description : Option Text} {t : Task} {value : Json.Value}
      (storable : t.IsStorable) (recorded : Recorded s.desk.host.files d t) :
      Does d s (.start name description) (some { t with description := value })
        (some { t with description := value })
  /-- A task is created. -/
  | create {name : Text} {description : Option Text} {t : Task} (blank : t.IsBlank)
      (id_eq : (outcome Action.newId s.desk.host).1 = .ok t.id) :
      Does d s (.start name description) (some t) (some t)
  | switch {id : Text} {t : Task} (storable : t.IsStorable)
      (recorded : Recorded s.desk.host.files d t) : Does d s (.switch id) none (some t)
  | endCurrent : Does d s .endCurrent none none
  | addFiles {paths : List Text} {t : Task} (current : s.desk.ledger.current = some t) :
      Does d s (.addFiles paths) (some (t.addFiles (paths.map .text)))
        (some (t.addFiles (paths.map .text)))
  | clearFiles {t : Task} (current : s.desk.ledger.current = some t) :
      Does d s .clearFiles (some { t with included := [] }) (some { t with included := [] })
  | record {ops : List MadeOperation} {t : Task} (current : s.desk.ledger.current = some t)
      (some_ops : ops ≠ []) : Does d s (.record ops) (some (t.record (MadeOperation.values ops)))
        (some (t.record (MadeOperation.values ops)))
  | recordOnCopy {index : Nat} {ops : List MadeOperation} {t : Task}
      (copy : s.copies[index]? = some t) (some_ops : ops ≠ []) :
      Does d s (.recordOnCopy index ops) (some (t.record (MadeOperation.values ops)))
        s.desk.ledger.current
  /-- The current task is committed or undone. -/
  | settle {step : Ledger.Step} {call : VcsCall} {t : Task} {status : TaskStatus}
      (warrants : s.Warrants step call) (current : s.desk.ledger.current = some t)
      (applied : t.status = .applied) (closed : status.IsClosed) :
      Does d s step (some { t with status }) (some { t with status })
  /-- The ledger is opened anew, with the task of its pointer. -/
  | reopen {target : Option Task}
      (recorded : ∀ t, target = some t → t.IsStorable ∧ Recorded s.desk.host.files d t) :
      Does d s .reopen none target

/-- A ledger after one of the things that a step can do, and after what the step asks of the runner. -/
def Ends (state : FilePath) (d : Location) (s : Session) (step : Ledger.Step) (done : Prop)
    (after : Desk) : Prop :=
  ∃ saved current, s.Does d step saved current ∧ Desk.Moves state d s.desk saved current after ∧
    s.Asks step done after

variable {α : Type} {state : FilePath} {d : Location} {s : Session} {step : Ledger.Step}
variable {done : Prop}

theorem Ends.congr {done' : Prop} {after : Desk} (h : s.Ends state d step done after)
    (hs : done ↔ done') : s.Ends state d step done' after := propext hs ▸ h

/-- What asks nothing of the runner settles nothing. -/
theorem Ends.of_unasked {after : Desk} {saved current : Option Task}
    (hdoes : s.Does d step saved current) (hmoves : Desk.Moves state d s.desk saved current after)
    (hasked : s.desk.Unasked after) : s.Ends state d step False after :=
  ⟨saved, current, hdoes, hmoves, .inl ⟨hasked, id⟩⟩

namespace Stored

theorem ends_nothing (hs : s.Stored state d) : s.Ends state d step False s.desk :=
  .of_unasked .nothing hs.desk.moves_refl (.refl _)

theorem ends_needCurrent_bind (hs : s.Stored state d) {f : Task → LedgerAction α}
    (hf : ∀ t, s.desk.ledger.current = some t →
      s.Ends state d step False (outcome (f t) s.desk).2) :
    s.Ends state d step False (outcome (needCurrent >>= f) s.desk).2 := by
  rw [outcome_bind, outcome_needCurrent]
  rcases hc : s.desk.ledger.current with _ | t
  · exact hs.ends_nothing
  · exact hf t hc

/-- A later state of the current task is saved in its place. -/
theorem ends_saveCurrent (hs : s.Stored state d) {t u : Task} (hc : s.desk.ledger.current = some t)
    (hu : u.IsStorable) (hid : u.id = t.id) (hd : s.Does d step (some u) (some u)) :
    s.Ends state d step False (outcome (Ledger.saveCurrent u) s.desk).2 := by
  rw [hs.desk.outcome_saveCurrent hu]
  exact .of_unasked hd (hs.desk.moves_refl.save hu (.inr ⟨t, hc, hid, rfl⟩)) ⟨rfl, rfl⟩

theorem ends_saveCurrent_bind (hs : s.Stored state d) {t u : Task}
    (hc : s.desk.ledger.current = some t) (hu : u.IsStorable) (hid : u.id = t.id)
    (hd : s.Does d step (some u) (some u)) (a : α) :
    s.Ends state d step False (outcome (Ledger.saveCurrent u >>= fun _ => pure a) s.desk).2 := by
  have hends := hs.ends_saveCurrent hc hu hid hd
  rw [hs.desk.outcome_saveCurrent hu] at hends
  rw [outcome_bind_of_ok (hs.desk.outcome_saveCurrent hu)]
  exact hends

/-! ### Steps -/

theorem ends_addFiles (hs : s.Stored state d) (paths : List Text) :
    s.Ends state d (.addFiles paths) False
      (outcome (Ledger.addFiles (paths.map .text)) s.desk).2 := by
  refine hs.ends_needCurrent_bind fun t hc => ?_
  dsimp only
  split
  · have ht := (hs.desk.inMemory t hc).addFiles paths
    exact hs.ends_saveCurrent_bind hc ht rfl (.addFiles hc) _
  · exact hs.ends_nothing

theorem ends_clearFiles (hs : s.Stored state d) :
    s.Ends state d .clearFiles False (outcome Ledger.clearFiles s.desk).2 := by
  refine hs.ends_needCurrent_bind fun t hc => ?_
  have ht := hs.desk.inMemory t hc
  exact hs.ends_saveCurrent hc ⟨ht.isId, ht.isTextual.clear⟩ rfl (.clearFiles hc)

theorem ends_record (hs : s.Stored state d) (ops : List MadeOperation) :
    s.Ends state d (.record ops) False
      (outcome (recordOnCurrent (MadeOperation.values ops)) s.desk).2 := by
  refine hs.ends_needCurrent_bind fun t hc => ?_
  split
  · exact hs.ends_nothing
  · rename_i hne
    have hops : ops ≠ [] := by
      rintro rfl
      exact hne rfl
    have ht := (hs.desk.inMemory t hc).record ops
    exact hs.ends_saveCurrent_bind hc ht (t.record_id _) (.record hc hops) _

/-- Loading a copy changes nothing of the ledger. -/
theorem ends_load (hs : s.Stored state d) {id : Text} (hid : '/' ∉ id) :
    s.Ends state d (.load id) False (s.take (.load id)).2.desk := by
  rcases hs.desk.store.find_cases hs.desk.tasksDirectory hid with ⟨f, hf⟩ | ⟨t, hf, -⟩
  · simp only [Session.take, hf]
    exact hs.ends_nothing
  · simp only [Session.take, hf]
    exact hs.ends_nothing

theorem ends_recordOnCopy (hs : s.Stored state d) (index : Nat) (ops : List MadeOperation) :
    s.Ends state d (.recordOnCopy index ops) False (s.take (.recordOnCopy index ops)).2.desk := by
  rcases hcopy : s.copies[index]? with _ | t
  · simp only [Session.take, hcopy]
    exact hs.ends_nothing
  simp only [Session.take, hcopy]
  change s.Ends state d _ False (outcome (recordOn t (MadeOperation.values ops)) s.desk).2
  have ht := (hs.copies t (List.mem_of_getElem? hcopy)).record ops
  rw [recordOn]
  split
  · exact hs.ends_nothing
  · rename_i hne
    have hops : ops ≠ [] := by
      rintro rfl
      exact hne rfl
    rw [outcome_bind_of_ok (outcome_ledger _), outcome_bind_of_ok
      (outcome_lift_of_eq (outcome_save hs.desk.store hs.desk.tasksDirectory ht))]
    exact .of_unasked (.recordOnCopy hcopy hops) (hs.desk.moves_refl.save ht (.inl rfl)) ⟨rfl, rfl⟩

theorem ends_endCurrent (hs : s.Stored state d) :
    s.Ends state d .endCurrent False (outcome Ledger.endCurrent s.desk).2 := by
  have hnone : ∀ t, none = some t → Holds s.desk.host.files d t := by simp
  obtain ⟨files, ho, hmoves⟩ := hs.desk.moves_refl.setCurrent hnone
  rw [Ledger.endCurrent, ho]
  exact .of_unasked .endCurrent hmoves ⟨rfl, rfl⟩

theorem ends_switch (hs : s.Stored state d) {id : Text} (hid : '/' ∉ id) :
    s.Ends state d (.switch id) False (outcome (Ledger.switch id) s.desk).2 := by
  rw [Ledger.switch, outcome_bind_of_ok (outcome_ledger _)]
  rcases hs.desk.store.find_cases hs.desk.tasksDirectory hid with ⟨f, hf⟩ | ⟨t, hf, ht, hr⟩
  · rw [outcome_bind_of_error (outcome_lift_of_eq hf)]
    exact hs.ends_nothing
  · obtain ⟨files, ho, hmoves⟩ :=
      hs.desk.moves_refl.setCurrent fun u hu => Option.some.inj hu ▸ ⟨ht, hr⟩
    rw [outcome_bind_of_ok (outcome_lift_of_eq hf), outcome_bind_of_ok ho]
    exact .of_unasked (.switch ht hr) hmoves ⟨rfl, rfl⟩

theorem ends_start (hs : s.Stored state d) (name : Text) (description : Option Text) :
    s.Ends state d (.start name description) False
      (outcome (Ledger.start name (descriptionOf description)) s.desk).2 := by
  obtain ⟨result, saved, current, after, ho, hstarted, hmoves, hasked⟩ :=
    hs.desk.start name description
  rw [ho]
  refine .of_unasked ?_ hmoves hasked
  generalize after.host.ids = ids at hstarted
  cases hstarted with
  | failed => exact .nothing
  | resumed holds => exact .takeUp holds.1 holds.2
  | described holds => exact .describe holds.1 holds.2
  | created creates => exact .create creates.blank creates.id_eq

theorem ends_reopen (hs : s.Stored state d) :
    s.Ends state d .reopen False (outcome Ledger.reopen s.desk).2 := by
  obtain ⟨target, ho, hheld, hmoves⟩ := hs.desk.reopen
  rw [ho]
  exact .of_unasked (.reopen hheld) hmoves ⟨rfl, rfl⟩

/-- What is settled, is saved with its new status. -/
theorem ends_of_settling (hs : s.Stored state d) {after : Desk}
    (h : s.Settling d step done after) : s.Ends state d step done after := by
  have hasks := h.asks
  have hrefl := hs.desk.moves_refl
  cases h with
  | unasked spared git =>
    exact ⟨none, _, .nothing, hrefl.spared spared s.desk.ledger.vcs, hasks⟩
  | @refused call host vcs warrants spared asked =>
    exact ⟨none, _, .nothing, hrefl.spared spared vcs, hasks⟩
  | @saved call host vcs t status warrants spared asked current applied closed =>
    have ht := (hs.desk.inMemory t current).setStatus status
    exact ⟨_, _, .settle warrants current applied closed,
      (hrefl.spared spared vcs).save ht (.inr ⟨t, current, rfl, rfl⟩), hasks⟩

/-- **Every step does one of the things that it can do**, whether it succeeds or fails: it saves one
task or none, and asks the runner for what it warrants, to settle the current task. -/
theorem does_take (hs : s.Stored state d) (hn : step.NamesTask) :
    s.Ends state d step (step.settles (s.take step).1) (s.take step).2.desk := by
  cases step with
  | commit => exact hs.ends_of_settling hs.settling_commit
  | undo confirm => exact hs.ends_of_settling (hs.settling_undo confirm)
  | start name description =>
    exact (hs.ends_start name description).congr (by simp [Step.settles])
  | switch id => exact (hs.ends_switch hn).congr (by simp [Step.settles])
  | endCurrent => exact hs.ends_endCurrent.congr (by simp [Step.settles])
  | addFiles paths => exact (hs.ends_addFiles paths).congr (by simp [Step.settles])
  | clearFiles => exact hs.ends_clearFiles.congr (by simp [Step.settles])
  | record ops => exact (hs.ends_record ops).congr (by simp [Step.settles])
  | load id => exact (hs.ends_load hn).congr (by simp [Step.settles])
  | recordOnCopy index ops => exact (hs.ends_recordOnCopy index ops).congr (by simp [Step.settles])
  | reopen => exact hs.ends_reopen.congr (by simp [Step.settles])

end Stored

/-! ## Copies -/

/-- A copy after a step was one before it, has been loaded from a record, or is a copy on which
operations have been recorded. -/
theorem copy_cases (hs : Store s.desk.host.files s.desk.host.cwd state d)
    (hl : s.desk.ledger.tasksDirectory = state.child tasksName) {step : Ledger.Step}
    (hn : step.NamesTask) {t : Task} (ht : t ∈ (s.take step).2.copies) :
    t ∈ s.copies ∨ (t.IsStorable ∧ Recorded s.desk.host.files d t) ∨
      ∃ c ∈ s.copies, ∃ ops, t = c.record (MadeOperation.values ops) := by
  cases step with
  | load id =>
    rcases hs.find_cases hl hn with ⟨f, hf⟩ | ⟨u, hf, hu⟩
    · simp only [Session.take, hf] at ht
      exact .inl ht
    · simp only [Session.take, hf] at ht
      refine (List.mem_append.1 ht).imp_right fun hmem => .inl ?_
      exact List.mem_singleton.1 hmem ▸ hu
  | recordOnCopy index ops =>
    simp only [Session.take] at ht
    split at ht
    · exact .inl ht
    · rename_i c hcopy
      refine (List.mem_or_eq_of_mem_set ht).imp_right fun hset => .inr ?_
      exact ⟨c, List.mem_of_getElem? hcopy, ops, hset⟩
  | _ => exact .inl ht

/-- Copies can be kept after every step. -/
theorem copies_take (hs : Store s.desk.host.files s.desk.host.cwd state d)
    (hl : s.desk.ledger.tasksDirectory = state.child tasksName)
    (hc : ∀ t ∈ s.copies, t.IsStorable) {step : Ledger.Step} (hn : step.NamesTask) :
    ∀ t ∈ (s.take step).2.copies, t.IsStorable := by
  intro t ht
  rcases copy_cases hs hl hn ht with ht | ht | ⟨c, hcopy, ops, rfl⟩
  · exact hc t ht
  · exact ht.1
  · exact (hc c hcopy).record ops

/-! ## What is stored stays in order -/

/-- Every step keeps what is stored in order, whether it succeeds or fails. -/
theorem Stored.take (hs : s.Stored state d) (hn : step.NamesTask) :
    (s.take step).2.Stored state d := by
  obtain ⟨saved, current, -, hmoves, -⟩ := hs.does_take hn
  exact ⟨hmoves.toStored, copies_take hs.desk.store hs.desk.tasksDirectory hs.copies hn⟩

/-- So does a run. -/
theorem Stored.play (hs : s.Stored state d) {steps : List Ledger.Step}
    (hn : ∀ step ∈ steps, step.NamesTask) : (play steps s).2.Stored state d := by
  induction steps generalizing s with
  | nil => exact hs
  | cons step rest ih =>
    rw [play_cons]
    exact ih (hs.take (hn step List.mem_cons_self)) fun u hu => hn u (List.mem_cons_of_mem _ hu)

end Session

end ReplyLedger
