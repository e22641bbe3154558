import ReplyLedger.Proofs.Ledger.Tracking

/-!
# Tasks are found by their names

No two tasks of a ledger have one name, so starting a task by its name leads to the same task for good
(`names_lead_to_tasks`). Its id, its name and the time of its creation never change, and its
description only if there is none yet: then it becomes the first one that is given when the task is
started again. That holds if operations are recorded on no copy but one that has just been loaded
(`Session.IsCareful`): an older one may lack the description.
-/

namespace ReplyLedger

open Ledger

/-! ## Descriptions -/

/-- The description that a step gives to the task with a name. -/
def Ledger.Step.given (name : Text) : Ledger.Step → Text
  | .start n description => if n = name then description.getD [] else []
  | _ => []

/-- The first description that is given to the task with a name, or none. -/
def Session.firstGiven (name : Text) : List (Session × Ledger.Step) → Text
  | [] => []
  | (_, step) :: rest =>
    if step.given name = [] then firstGiven name rest else step.given name

namespace Task

/-- What the steps on a task leave alone: its identity and its description. -/
def profile (t : Task) : Identity × Json.Value := (t.identity, t.description)

theorem steady_profile : Steady profile where
  id_eq h := congrArg (fun p => p.1.id) h
  record t ops := by
    unfold record
    split <;> rfl
  included _ _ := rfl
  status _ _ := rfl

variable {t u : Task}

/-- What a task looks like with a description depends on what it looks like without. -/
theorem profile_described (h : t.profile = u.profile) (given : Text) :
    (t.described given).profile = (u.described given).profile := by
  obtain ⟨hidentity, hdescription⟩ := Prod.mk.inj h
  exact Prod.ext hidentity (by simp only [profile, described, hdescription])

theorem IsTextual.described_nil (h : t.IsTextual) : t.described [] = t := by
  have hnone : ¬ (!(descriptionOf none).isEmpty && t.description.isEmpty) = true := nofun
  exact h.described_of_not_gains hnone

/-- Of two descriptions that are given, a task gets the first. -/
theorem described_described (t : Task) (first later : Text) :
    (t.described first).described later = t.described (if first = [] then later else first) := by
  rw [described, described, described]
  by_cases hnone : t.description.isEmpty
  · simp only [if_pos hnone]
    rcases first with _ | ⟨c, first⟩ <;> rfl
  · simp only [if_neg hnone]

end Task

namespace Session

variable {state : FilePath} {d : Location} {s : Session} {step : Ledger.Step}
variable {line : List Task.Identity}

/-! ## Copies -/

/-- Whether a task is as it would be loaded now. -/
def IsLoaded (s : Session) (t : Task) : Prop :=
  (outcome (s.desk.ledger.find t.id) s.desk.host).1 = .ok t

/-- A step names tasks by ids, and records operations on no copy but one that is as it would be loaded
now. -/
def IsCareful (s : Session) (step : Ledger.Step) : Prop :=
  step.NamesTask ∧ ∀ index ops, step = .recordOnCopy index ops →
    ∀ t, s.copies[index]? = some t → s.IsLoaded t

/-- A copy that has just been loaded is as it would be loaded now. -/
theorem Stored.isLoaded_load (hs : s.Stored state d) {id : Text} (hid : '/' ∉ id) {t : Task}
    (ha : (s.take (.load id)).1 = .ok (.task t)) :
    (s.take (.load id)).2.copies = s.copies ++ [t] ∧ (s.take (.load id)).2.IsLoaded t := by
  rcases hs.desk.store.find_cases hs.desk.tasksDirectory hid with ⟨f, hf⟩ | ⟨u, hf, hu, hr⟩
  · simp only [Session.take, hf] at ha
    cases ha
  · simp only [Session.take, hf] at ha ⊢
    obtain rfl := Answer.task.inj (Except.ok.inj ha)
    refine ⟨rfl, ?_⟩
    rw [IsLoaded, outcome_find_of_recorded hs.desk.store hs.desk.tasksDirectory hu hr]

theorem Stored.holds_of_isLoaded (hs : s.Stored state d) {t : Task} (ht : t.IsStorable)
    (hl : s.IsLoaded t) : Holds s.desk.host.files d t := by
  have hslash := ht.isId.not_mem (c := '/') (by decide)
  exact ⟨ht, (recorded_of_find hs.desk.store hs.desk.tasksDirectory hslash hl).2.2⟩

/-! ## Names -/

namespace Tracks

/-- No two tasks that are held have one name. -/
theorem eq_of_name (h : s.Tracks state d line) {t u : Task} (ht : Holds s.desk.host.files d t)
    (hu : Holds s.desk.host.files d u) (hname : t.name = u.name) : t = u := by
  have hnames : (line.map Task.Identity.name).Nodup := List.pairwise_map.2 h.names
  have hsame : t.identity = u.identity :=
    List.inj_on_of_nodup_map hnames ((h.mem_iff _).2 ⟨t, ht, rfl⟩) ((h.mem_iff _).2 ⟨u, hu, rfl⟩) hname
  exact eq_of_recorded h.desk.store ht.1 ht.2 hu.1 hu.2 (congrArg Task.Identity.id hsame)

/-- The name of a task that is held is not refused, and it is not lacking. -/
theorem not_lacks (h : s.Tracks state d line) {t : Task} (ht : Holds s.desk.host.files d t)
    {name : Text} (hname : t.name = .text name) :
    ¬ (Text.strip name = [] ∨ s.desk.Lacks d name) := by
  rintro (hblank | hlacks)
  · exact h.not_blank _ ((h.mem_iff _).2 ⟨t, ht, rfl⟩) name hname hblank
  · exact hlacks t ht hname

/-- Starting a task by the name of one that is held leads to that one. -/
theorem start_again (h : s.Tracks state d line) {t : Task} (ht : Holds s.desk.host.files d t)
    {name : Text} (hname : t.name = .text name) (description : Option Text) :
    (s.take (.start name description)).1 = .ok (.task (t.described (description.getD []))) := by
  obtain ⟨result, saved, current, after, ho, hstarted, hmoves, -⟩ := h.desk.start name description
  rw [take_start ho]
  generalize after.host.ids = ids at hstarted
  cases hstarted with
  | failed lacks => exact absurd lacks (h.not_lacks ht hname)
  | resumed holds name_eq unchanged =>
    obtain rfl := h.eq_of_name ht holds (hname.trans name_eq.symm)
    rw [unchanged]
    rfl
  | described holds name_eq =>
    obtain rfl := h.eq_of_name ht holds (hname.trans name_eq.symm)
    rfl
  | created creates => exact absurd hname (creates.lacks t ht)


end Tracks

/-! ## What becomes of a task -/

/-- The current task has the identity and the description of its record. -/
def Recalls (d : Location) (s : Session) : Prop :=
  ∀ c, s.desk.ledger.current = some c → Knows Task.profile s.desk.host.files d c.profile

/-- The tasks with a name that are held at first are held after that, with the description that is
given, if they had none. -/
def Gains (d : Location) (before after : FileSystem) (name given : Text) : Prop :=
  ∀ t, Holds before d t → t.name = .text name →
    Knows Task.profile after d (t.described given).profile

namespace Tracks

/-- Starting a task changes nothing of those that are held but the description of the one with the
name, if that has none. -/
theorem gains_start (h : s.Tracks state d line) (hr : s.Recalls d) (name : Text)
    (description : Option Text)
    (hids : (line.map Task.Identity.id ++ created (s, .start name description)).Nodup) :
    (s.take (.start name description)).2.Recalls d ∧
      ∀ n, Gains d s.desk.host.files (s.take (.start name description)).2.desk.host.files n
        ((Step.start name description).given n) := by
  obtain ⟨result, saved, current, after, ho, hstarted, hmoves, -⟩ := h.desk.start name description
  rw [take_start ho]
  have hstays {t : Task} (ht : Holds s.desk.host.files d t)
      (hother : ∀ u, saved = some u → u.id ≠ t.id) : Knows Task.profile after.host.files d t.profile :=
    ⟨t, hmoves.holds_iff.2 (.inr ⟨ht, hother⟩), rfl⟩
  have hungiven {t : Task} (ht : Holds s.desk.host.files d t) {n : Text} (hn : name ≠ n) :
      t.described ((Step.start name description).given n) = t := by
    rw [Step.given, if_neg hn, ht.1.isTextual.described_nil]
  generalize hsource : after.host.ids = ids at hstarted
  cases hstarted with
  | failed lacks =>
    refine ⟨fun c hc => ?_, fun n t ht hname => ?_⟩
    · have hknown := hr c (hmoves.current_eq.symm.trans hc)
      exact (hmoves.knows_iff Task.steady_profile h.desk nofun _).2 hknown
    · have hn : name ≠ n := fun he => h.not_lacks ht (he ▸ hname) lacks
      rw [hungiven ht hn]
      exact hstays ht nofun
  | @resumed u holds name_eq unchanged =>
    refine ⟨fun c hc => ?_, fun n t ht hname => ?_⟩
    · obtain rfl := Option.some.inj (hmoves.current_eq.symm.trans hc)
      exact hstays holds nofun
    · by_cases hn : name = n
      · subst hn
        obtain rfl := h.eq_of_name ht holds (hname.trans name_eq.symm)
        rw [Step.given, if_pos rfl, unchanged]
        exact hstays ht nofun
      · rw [hungiven ht hn]
        exact hstays ht nofun
  | @described u holds name_eq =>
    have hsaved : Knows Task.profile after.host.files d (u.described (description.getD [])).profile :=
      ⟨_, hmoves.holds_iff.2 (.inl rfl), rfl⟩
    refine ⟨fun c hc => ?_, fun n t ht hname => ?_⟩
    · obtain rfl := Option.some.inj (hmoves.current_eq.symm.trans hc)
      exact hsaved
    · by_cases hn : name = n
      · subst hn
        obtain rfl := h.eq_of_name ht holds (hname.trans name_eq.symm)
        rw [Step.given, if_pos rfl]
        exact hsaved
      · rw [hungiven ht hn]
        refine hstays ht fun v hv hid => hn ?_
        obtain rfl := Option.some.inj hv
        obtain rfl := eq_of_recorded h.desk.store holds.1 holds.2 ht.1 ht.2 hid
        exact Json.Value.text.inj (name_eq.symm.trans hname)
  | @created u host creates =>
    rw [created_start_of_ok ho, if_neg fun he => creates.ids_ne (hsource.symm.trans he)] at hids
    refine ⟨fun c hc => ?_, fun n t ht hname => ?_⟩
    · obtain rfl := Option.some.inj (hmoves.current_eq.symm.trans hc)
      exact ⟨_, hmoves.holds_iff.2 (.inl rfl), rfl⟩
    · have hn : name ≠ n := fun he => creates.lacks t ht (he ▸ hname)
      rw [hungiven ht hn]
      refine hstays ht fun v hv => ?_
      obtain rfl := Option.some.inj hv
      exact (h.ne_of_nodup hids ht).symm

/-- **A step changes nothing of the tasks that are held but what it records on them**, and their
descriptions if they have none. -/
theorem gains_take (h : s.Tracks state d line) (hr : s.Recalls d) (hc : s.IsCareful step)
    (hids : (line.map Task.Identity.id ++ created (s, step)).Nodup) :
    (s.take step).2.Recalls d ∧
      ∀ name, Gains d s.desk.host.files (s.take step).2.desk.host.files name (step.given name) := by
  by_cases hstart : ∃ name description, step = .start name description
  · obtain ⟨name, description, rfl⟩ := hstart
    exact h.gains_start hr name description hids
  have hother : ∀ name description, step ≠ .start name description :=
    fun name description he => hstart ⟨name, description, he⟩
  have hworks : ∀ t, s.WorksOn step t → Knows Task.profile s.desk.host.files d t.profile := by
    rintro t (hcurrent | ⟨index, ops, hstep, hcopy⟩)
    · exact hr t hcurrent
    · have ht := h.copies t (List.mem_of_getElem? hcopy)
      exact ⟨t, h.toStored.holds_of_isLoaded ht (hc.2 index ops hstep t hcopy), rfl⟩
  obtain ⟨saved, current, hdoes, hmoves, -⟩ := h.toStored.does_take hc.1
  have hsteady {t : Task} (ht : saved = some t ∨ current = some t) :
      Knows Task.profile s.desk.host.files d t.profile :=
    hdoes.knows Task.steady_profile hother hworks ht
  have hknows := hmoves.knows_iff Task.steady_profile h.desk fun t ht => hsteady (.inl ht)
  refine ⟨fun c hcurrent => (hknows _).2 (hsteady (.inr ?_)), fun n t ht hname => (hknows _).2 ?_⟩
  · exact hmoves.current_eq.symm.trans hcurrent
  · have hgiven : step.given n = [] := by
      cases step <;> first | rfl | exact absurd rfl (hother _ _)
    rw [hgiven, ht.1.isTextual.described_nil]
    exact ⟨t, ht, rfl⟩

end Tracks

/-- **A run changes nothing of the tasks that are held but what it records on them**, and their
descriptions if they have none: then they get the first that is given. -/
theorem Run.gains {history : List (Session × Ledger.Step)} {last : Session}
    (hrun : Run IsCareful s history last) (h : s.Tracks state d line) (hr : s.Recalls d)
    (hids : (line.map Task.Identity.id ++ history.flatMap created).Nodup) :
    last.Recalls d ∧
      ∀ name, Gains d s.desk.host.files last.desk.host.files name (firstGiven name history) := by
  induction hrun generalizing line with
  | done =>
    refine ⟨hr, fun name t ht hname => ?_⟩
    rw [firstGiven, ht.1.isTextual.described_nil]
    exact ⟨t, ht, rfl⟩
  | @step s last step rest careful _ ih =>
    rw [List.flatMap_cons, ← List.append_assoc] at hids
    obtain ⟨hrecalls, hgains⟩ := h.gains_take hr careful (List.nodup_append.1 hids).1
    obtain ⟨new, hnew, hstep⟩ := h.take careful.1 (List.nodup_append.1 hids).1
    rw [← hnew, ← List.map_append] at hids
    obtain ⟨hlast, hlater⟩ := ih hstep hrecalls hids
    refine ⟨hlast, fun name t ht hname => ?_⟩
    obtain ⟨u, hu, hlike⟩ := hgains name t ht hname
    have huname : u.name = .text name := (congrArg (fun p => p.1.name) hlike).trans hname
    have hafter := hlater name u hu huname
    rw [Task.profile_described hlike, Task.described_described] at hafter
    exact hafter
  | @relist s last files rest same _ ih =>
    have hrecalls : (s.withFiles files).Recalls d := fun c hc => by
      obtain ⟨u, hu, hlike⟩ := hr c hc
      exact ⟨u, (holds_of_perm same).2 hu, hlike⟩
    obtain ⟨hlast, hgains⟩ := ih (h.withFiles same) hrecalls hids
    exact ⟨hlast, fun name t ht => hgains name t ((holds_of_perm same).2 ht)⟩

/-! ## From an empty state directory -/

section Opened

variable {h : Host} {vcs : Vcs} {pointer : Option FilePath} {last : Session}
variable {earlier later : List (Session × Ledger.Step)}

/-- After a run from an empty state directory the tasks that were created are tracked, and a run that
goes on from there changes nothing of them but what it records. -/
theorem Run.gains_opened (hf : h.IsFresh state d)
    (hp : ∀ p, pointer = some p → p = state.child pointerName)
    (hearlier : Run IsCareful (opened h state d vcs pointer) earlier s)
    (hlater : Run IsCareful s later last) (hids : ((earlier ++ later).flatMap created).Nodup) :
    (∃ line, s.Tracks state d line) ∧ (∃ line, last.Tracks state d line) ∧
      ∀ name, Gains d s.desk.host.files last.desk.host.files name (firstGiven name later) := by
  have hnames : ∀ (s : Session) step, s.IsCareful step → step.NamesTask := fun _ _ hc => hc.1
  have hopened := tracks_opened hf vcs hp
  rw [List.flatMap_append] at hids
  obtain ⟨line, hline, htracks⟩ := hearlier.tracks hnames hopened (List.nodup_append.1 hids).1
  obtain ⟨hrecalls, -⟩ := hearlier.gains hopened nofun (List.nodup_append.1 hids).1
  rw [← hline, ← List.nil_append line] at hids
  obtain ⟨more, -, hlast⟩ := hlater.tracks hnames htracks hids
  exact ⟨⟨_, htracks⟩, ⟨_, hlast⟩, (hlater.gains htracks hrecalls hids).2⟩

/-- **Names lead to tasks.** In any run on a ledger that was opened in an empty state directory, if no
id is given to two tasks: no two tasks have one name; whatever the state directory holds at some point
of the run it holds later on, with the same id, name and time of creation, and with the same
description, or the first one that has been given since if there was none; and starting a task by its
name leads to the same task as it did before. -/
theorem names_lead_to_tasks (hf : h.IsFresh state d) (vcs : Vcs)
    (hp : ∀ p, pointer = some p → p = state.child pointerName)
    (hearlier : Run IsCareful (opened h state d vcs pointer) earlier s)
    (hlater : Run IsCareful s later last) (hids : ((earlier ++ later).flatMap created).Nodup) :
    let start := opened h state d vcs pointer
    outcome (openIn (state.child tasksName) vcs pointer) h =
        (.ok start.desk.ledger, start.desk.host) ∧
      Store last.desk.host.files last.desk.host.cwd state d ∧
      (∀ t u, Holds last.desk.host.files d t → Holds last.desk.host.files d u →
        t.name = u.name → t = u) ∧
      (∀ t, Holds s.desk.host.files d t → ∃ name u, t.name = .text name ∧
        Holds last.desk.host.files d u ∧ u.id = t.id ∧ u.name = t.name ∧ u.created = t.created ∧
        u.description =
          if t.description.isEmpty then .text (firstGiven name later) else t.description) ∧
      ∀ before name description t, (before, .start name description) ∈ earlier ++ later →
        (before.take (.start name description)).1 = .ok (.task t) → t.name = .text name ∧
          ∀ again, ∃ u, (last.take (.start name again)).1 = .ok (.task u) ∧ u.id = t.id := by
  obtain ⟨⟨line, htracks⟩, ⟨all, hlast⟩, hgains⟩ := hearlier.gains_opened hf hp hlater hids
  refine ⟨outcome_openIn_opened hf vcs hp, hlast.desk.store, fun t u => hlast.eq_of_name,
    fun t ht => ?_, fun before name description t hmem ha => ?_⟩
  · obtain ⟨name, hname⟩ := ht.1.isTextual.name
    obtain ⟨u, hu, hlike⟩ := hgains name t ht hname
    obtain ⟨hidentity, hdescription⟩ := Prod.mk.inj hlike
    exact ⟨name, u, hname, hu, congrArg Task.Identity.id hidentity,
      congrArg Task.Identity.name hidentity, congrArg Task.Identity.created hidentity, hdescription⟩
  · obtain ⟨front, back, hsplit⟩ := List.append_of_mem hmem
    have hrun := hearlier.append hlater
    rw [hsplit] at hrun hids
    obtain ⟨hbefore, careful, hback⟩ := hrun.split
    obtain ⟨⟨_, hstart⟩, -, -⟩ := hbefore.gains_opened hf hp (.step careful hback) hids
    obtain ⟨ht, hname⟩ := hstart.toStored.holds_start ha
    rw [List.append_cons] at hids
    obtain ⟨-, -, hkept⟩ := (hbefore.append (.step careful .done)).gains_opened hf hp hback hids
    obtain ⟨u, hu, hlike⟩ := hkept name t ht hname
    have huname : u.name = .text name := (congrArg (fun p => p.1.name) hlike).trans hname
    exact ⟨hname, fun again => ⟨_, hlast.start_again hu huname again,
      congrArg (fun p => p.1.id) hlike⟩⟩

end Opened

/-! ### A description that is given later -/

/-- A step that records operations on no copy is careful if it names tasks by ids. -/
theorem isCareful_of_ne (hn : step.NamesTask) (hno : ∀ index ops, step ≠ .recordOnCopy index ops) :
    s.IsCareful step := ⟨hn, fun index ops hstep => absurd hstep (hno index ops)⟩

/-- Operations are recorded on a copy of a task that has just been loaded, the task is started again
with a description, the ledger is opened anew, and another task is started. -/
def describingSteps : List Ledger.Step :=
  [.load ['a', '1'], .recordOnCopy 0 removedFile, .start ['A'] (some ['C']), .reopen, .start ['B'] none]

/-- The id of the task that is answered, and whether it has no description. -/
def answered : Except Failure Answer → Option (Text × Bool)
  | .ok (.task t) => some (t.id, t.description.isEmpty)
  | _ => none

theorem exists_of_answered {answer : Except Failure Answer} {id : Text} {empty : Bool}
    (h : answered answer = some (id, empty)) :
    ∃ t, answer = .ok (.task t) ∧ t.id = id ∧ t.description.isEmpty = empty := by
  unfold answered at h
  split at h
  · rename_i t
    obtain ⟨rfl, rfl⟩ := Prod.mk.inj (Option.some.inj h)
    exact ⟨t, rfl, rfl, rfl⟩
  · exact nomatch h

/-- The copy on which operations are recorded has just been loaded. -/
theorem run_describingSteps (hs : s.Stored state d) (hnone : s.copies = [])
    (hload : answered (s.take (.load ['a', '1'])).1 = some (['a', '1'], true)) :
    Run IsCareful s (trace describingSteps s) (play describingSteps s).2 := by
  have hid : '/' ∉ ['a', '1'] := by decide
  obtain ⟨c, hc, -⟩ := exists_of_answered hload
  obtain ⟨hcopies, hloaded⟩ := hs.isLoaded_load hid hc
  rw [hnone] at hcopies
  refine run_play ?_
  rw [describingSteps, forall_trace_cons, forall_trace_cons, forall_trace_cons, forall_trace_cons,
    forall_trace_cons]
  refine ⟨isCareful_of_ne hid nofun, ⟨trivial, fun index ops hstep t ht => ?_⟩,
    isCareful_of_ne trivial nofun, isCareful_of_ne trivial nofun, isCareful_of_ne trivial nofun,
    forall_trace_nil _ _⟩
  obtain ⟨rfl, -⟩ := Step.recordOnCopy.inj hstep
  rw [hcopies] at ht
  obtain rfl : c = t := Option.some.inj ht
  exact hloaded

/-- The task gains the description, and is found by its name. -/
theorem names_lead_to_tasks_describingSteps :
    let state := FilePath.ofText ['l']
    let start := opened linkedStateHost state [['h'], ['s']] (.noting [] [])
      (some (state.child pointerName))
    let first : List Ledger.Step := [.start ['A'] none]
    let s := (play first start).2
    let last := (play describingSteps s).2
    linkedStateHost.IsFresh state [['h'], ['s']] ∧
      Run IsCareful start (trace first start) s ∧ Run IsCareful s (trace describingSteps s) last ∧
      (trace first start ++ trace describingSteps s).flatMap created = [['a', '1'], ['b', '2']] ∧
      (∃ t, Holds s.desk.host.files [['h'], ['s']] t ∧ t.id = ['a', '1'] ∧ t.description.isEmpty) ∧
      (∃ u, Holds last.desk.host.files [['h'], ['s']] u ∧ u.id = ['a', '1'] ∧
        u.description = .text ['C']) ∧
      ∃ u, (last.take (.start ['A'] none)).1 = .ok (.task u) ∧ u.id = ['a', '1'] := by
  intro state start first s last
  have hp : ∀ p, some (state.child pointerName) = some p → p = state.child pointerName :=
    fun p hp => (Option.some.inj hp).symm
  have hstored : start.Stored state [['h'], ['s']] := stored_opened isFresh_linkedStateHost _ hp
  have hnames : (Step.start ['A'] none).NamesTask := trivial
  have hs : s.Stored state [['h'], ['s']] := hstored.take hnames
  have hearlier : Run IsCareful start (trace first start) s :=
    run_play (forall_trace_cons.2 ⟨isCareful_of_ne trivial nofun, forall_trace_nil _ _⟩)
  have hlater : Run IsCareful s (trace describingSteps s) last :=
    run_describingSteps hs rfl (by decide +kernel)
  have hcreated : (trace first start ++ trace describingSteps s).flatMap created =
      [['a', '1'], ['b', '2']] := by decide +kernel
  have hunique : ((trace first start ++ trace describingSteps s).flatMap created).Nodup := by
    rw [hcreated]
    decide
  have hstarted : answered (start.take (.start ['A'] none)).1 = some (['a', '1'], true) := by
    decide +kernel
  obtain ⟨t, ha, htid, hempty⟩ := exists_of_answered hstarted
  have ht := (hstored.holds_start ha).1
  obtain ⟨-, -, -, hkept, hagain⟩ :=
    names_lead_to_tasks isFresh_linkedStateHost _ hp hearlier hlater hunique
  obtain ⟨name, u, hname, hu, huid, -, -, hdescription⟩ := hkept t ht
  obtain ⟨htname, hsame⟩ := hagain start ['A'] none t List.mem_cons_self ha
  obtain ⟨v, hv, hvid⟩ := hsame none
  have hgiven : firstGiven name (trace describingSteps s) = ['C'] := by
    obtain rfl := Json.Value.text.inj (hname.symm.trans htname)
    decide +kernel
  rw [if_pos hempty, hgiven] at hdescription
  exact ⟨isFresh_linkedStateHost, hearlier, hlater, hcreated, ⟨t, ht, htid, hempty⟩,
    ⟨u, hu, huid.trans htid, hdescription⟩, v, hv, hvid.trans htid⟩

end Session

end ReplyLedger
