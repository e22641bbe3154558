import ReplyLedger.Proofs.Ledger.Runs

/-!
# The tasks that a run creates

A task keeps its id, its name and the time of its creation for good (`Task.identity`). The identities
of the tasks that a ledger holds are a list that only grows, by those of the tasks that are created: a
session tracks this list (`Session.Tracks`) if the records have these identities, what is in memory has
one of them, names are not repeated, and times go up. Every step keeps that and adds to the list
(`Tracks.take`), and so does every run (`Run.tracks`), if no id is given to two tasks.
-/

namespace ReplyLedger

open FileSystem Ledger

/-! ## Identities -/

/-- What a task keeps for good. -/
structure Task.Identity where
  id : Text
  name : Json.Value
  created : Timestamp

/-- The identity of a task. -/
def Task.identity (t : Task) : Task.Identity := ⟨t.id, t.name, t.created⟩

/-- A view of tasks that shows the id, and nothing that changes when operations or files are recorded
on a task, or when it is settled. -/
structure Task.Steady {β : Type} (view : Task → β) : Prop where
  id_eq : ∀ {t u : Task}, view t = view u → t.id = u.id
  record : ∀ (t : Task) (ops : List (Operation Json.Value)), view (t.record ops) = view t
  included : ∀ (t : Task) (paths : List Json.Value), view { t with included := paths } = view t
  status : ∀ (t : Task) (status : TaskStatus), view { t with status } = view t

theorem Task.steady_identity : Task.Steady Task.identity := by
  refine ⟨fun h => congrArg Identity.id h, fun t ops => ?_, fun _ _ => rfl, fun _ _ => rfl⟩
  unfold Task.record
  split <;> rfl

/-- A state directory holds the same tasks in whatever order it lists their records. -/
theorem Ledger.holds_of_perm {fs gs : FileSystem} (h : gs.entries.Perm fs.entries) {d : Location}
    {t : Task} : Holds gs d t ↔ Holds fs d t := by
  rw [Holds, Holds, Recorded, Recorded, entryAt_of_perm h]

/-- Whether a state directory holds a task that looks like this. -/
def Ledger.Knows {β : Type} (view : Task → β) (fs : FileSystem) (d : Location) (b : β) : Prop :=
  ∃ t, Holds fs d t ∧ view t = b

namespace Desk.Moves

variable {state : FilePath} {d : Location} {before desk : Desk} {saved current : Option Task}
variable {β : Type} {view : Task → β} {t : Task}

/-- Saving a task that looks like one that is held creates no task and loses none. -/
theorem knows_iff (hview : Task.Steady view) (hs : Stored state d before)
    (h : Moves state d before saved current desk)
    (hsaved : ∀ t, saved = some t → Knows view before.host.files d (view t)) (b : β) :
    Knows view desk.host.files d b ↔ Knows view before.host.files d b := by
  constructor
  · rintro ⟨t, ht, rfl⟩
    rcases h.holds_iff.1 ht with htsaved | hbefore
    · exact hsaved t htsaved
    · exact ⟨t, hbefore.1, rfl⟩
  · rintro ⟨t, ht, rfl⟩
    by_cases hsame : ∃ u, saved = some u ∧ u.id = t.id
    · obtain ⟨u, hu, hid⟩ := hsame
      obtain ⟨r, hr, hlike⟩ := hsaved u hu
      obtain rfl := eq_of_recorded hs.store hr.1 hr.2 ht.1 ht.2 ((hview.id_eq hlike).trans hid)
      exact ⟨u, h.holds_iff.2 (.inl hu), hlike.symm⟩
    · exact ⟨t, h.holds_iff.2 (.inr ⟨ht, fun u hu hid => hsame ⟨u, hu, hid⟩⟩), rfl⟩

/-- Saving a task under an id that no other has adds it to those that are held. -/
theorem knows_iff_of_new (h : Moves state d before (some t) current desk)
    (hnew : ∀ u, Holds before.host.files d u → u.id ≠ t.id) (b : β) :
    Knows view desk.host.files d b ↔ Knows view before.host.files d b ∨ b = view t := by
  constructor
  · rintro ⟨u, hu, rfl⟩
    rcases h.holds_iff.1 hu with husaved | hbefore
    · obtain rfl := Option.some.inj husaved
      exact .inr rfl
    · exact .inl ⟨u, hbefore.1, rfl⟩
  · rintro (⟨u, hu, rfl⟩ | rfl)
    · refine ⟨u, h.holds_iff.2 (.inr ⟨hu, fun v hv => ?_⟩), rfl⟩
      obtain rfl := Option.some.inj hv
      exact (hnew u hu).symm
    · exact ⟨t, h.holds_iff.2 (.inl rfl), rfl⟩

end Desk.Moves

namespace Session

variable {state : FilePath} {d : Location} {s : Session} {step : Ledger.Step}

/-- Whether a task is the current one or one of the copies. -/
def Remembers (s : Session) (t : Task) : Prop := s.desk.ledger.current = some t ∨ t ∈ s.copies

/-- Whether a task is the current one, or the copy that a step works on. -/
def WorksOn (s : Session) (step : Ledger.Step) (t : Task) : Prop :=
  s.desk.ledger.current = some t ∨
    ∃ index ops, step = .recordOnCopy index ops ∧ s.copies[index]? = some t

theorem WorksOn.remembers {t : Task} (h : s.WorksOn step t) : s.Remembers t := by
  rcases h with h | ⟨index, ops, -, h⟩
  · exact .inl h
  · exact .inr (List.mem_of_getElem? h)

/-- What a step saves or makes the current task looks like a task that is held or that the step works
on, unless the step starts a task. -/
theorem Does.view {β : Type} {view : Task → β} (hview : Task.Steady view) {P : β → Prop}
    {saved current : Option Task} (h : s.Does d step saved current)
    (hstep : ∀ name description, step ≠ .start name description)
    (hheld : ∀ t, Holds s.desk.host.files d t → P (view t))
    (hm : ∀ t, s.WorksOn step t → P (view t)) {t : Task}
    (ht : saved = some t ∨ current = some t) : P (view t) := by
  have of_current {u : Task} (hc : s.desk.ledger.current = some u) : P (view u) := hm u (.inl hc)
  cases h with
  | nothing => exact of_current (ht.resolve_left nofun)
  | takeUp => exact absurd rfl (hstep _ _)
  | describe => exact absurd rfl (hstep _ _)
  | create => exact absurd rfl (hstep _ _)
  | switch storable recorded =>
    obtain rfl := Option.some.inj (ht.resolve_left nofun)
    exact hheld _ ⟨storable, recorded⟩
  | endCurrent => exact nomatch or_self_iff.1 ht
  | addFiles current =>
    obtain rfl := Option.some.inj (or_self_iff.1 ht)
    rw [Task.addFiles, hview.included]
    exact of_current current
  | clearFiles current =>
    obtain rfl := Option.some.inj (or_self_iff.1 ht)
    rw [hview.included]
    exact of_current current
  | record current some_ops =>
    obtain rfl := Option.some.inj (or_self_iff.1 ht)
    rw [hview.record]
    exact of_current current
  | recordOnCopy copy some_ops =>
    rcases ht with ht | ht
    · obtain rfl := Option.some.inj ht
      rw [hview.record]
      exact hm _ (.inr ⟨_, _, rfl, copy⟩)
    · exact of_current ht
  | settle warrants current applied closed =>
    obtain rfl := Option.some.inj (or_self_iff.1 ht)
    rw [hview.status]
    exact of_current current
  | reopen recorded => exact hheld t (recorded t (ht.resolve_left nofun))

/-- What a step saves or makes the current task looks like a task that is held, unless the step starts
a task. -/
theorem Does.knows {β : Type} {view : Task → β} (hview : Task.Steady view)
    {saved current : Option Task} (h : s.Does d step saved current)
    (hstep : ∀ name description, step ≠ .start name description)
    (hm : ∀ t, s.WorksOn step t → Knows view s.desk.host.files d (view t)) {t : Task}
    (ht : saved = some t ∨ current = some t) : Knows view s.desk.host.files d (view t) :=
  h.view hview hstep (fun u hu => ⟨u, hu, rfl⟩) hm ht

/-- A copy after a step was one before it, but for what is recorded on it, or has been loaded. -/
theorem Stored.knows_copies (hs : s.Stored state d) (hn : step.NamesTask)
    (hm : ∀ t, s.Remembers t → Knows Task.identity s.desk.host.files d t.identity) :
    ∀ t ∈ (s.take step).2.copies, Knows Task.identity s.desk.host.files d t.identity := by
  intro t ht
  rcases copy_cases hs.desk.store hs.desk.tasksDirectory hn ht with ht | ht | ⟨c, hcopy, ops, rfl⟩
  · exact hm t (.inr ht)
  · exact ⟨t, ht, rfl⟩
  · rw [Task.steady_identity.record]
    exact hm c (.inr hcopy)

/-! ## Creating tasks -/

/-- The id of the task that a step creates, if it is a start that takes a new one. -/
def created : Session × Ledger.Step → List Text
  | (s, .start name description) =>
    match s.take (.start name description) with
    | (.ok (.task t), after) => if after.desk.host.ids = s.desk.host.ids then [] else [t.id]
    | _ => []
  | _ => []

theorem take_start {name : Text} {description : Option Text} {result : Except Failure Task}
    {after : Desk} (h : outcome (Ledger.start name (descriptionOf description)) s.desk =
      (result, after)) :
    s.take (.start name description) = (result.map .task, { s with desk := after }) := by
  simp only [Session.take, act, h]

/-- A step that creates a task is a start, and answers the task. -/
theorem exists_of_created {id : Text} (h : created (s, step) = [id]) :
    ∃ name description t, step = .start name description ∧
      (s.take step).1 = .ok (.task t) ∧ t.id = id := by
  cases step with
  | start name description =>
    simp only [created] at h
    split at h
    · rename_i t after htake
      split at h
      · exact nomatch h
      · exact ⟨name, description, t, rfl, by rw [htake], List.singleton_inj.1 h⟩
    · exact nomatch h
  | _ => exact nomatch h

section Start

variable {name : Text} {description : Option Text} {after : Desk}

theorem created_start_of_ok {t : Task}
    (h : outcome (Ledger.start name (descriptionOf description)) s.desk = (.ok t, after)) :
    created (s, .start name description) =
      if after.host.ids = s.desk.host.ids then [] else [t.id] := by
  simp only [created, take_start h]
  rfl

theorem created_start_of_error {f : Failure}
    (h : outcome (Ledger.start name (descriptionOf description)) s.desk = (.error f, after)) :
    created (s, .start name description) = [] := by
  simp only [created, take_start h]
  rfl

/-- A task that is started is held after that, under its name. -/
theorem Stored.holds_start (hs : s.Stored state d) {t : Task}
    (ha : (s.take (.start name description)).1 = .ok (.task t)) :
    Holds (s.take (.start name description)).2.desk.host.files d t ∧ t.name = .text name := by
  obtain ⟨result, saved, current, after, ho, hstarted, hmoves, -⟩ := hs.desk.start name description
  rw [take_start ho] at ha ⊢
  rcases result with f | u
  · exact nomatch ha
  · obtain rfl := Answer.task.inj (Except.ok.inj ha)
    exact hstarted.holds hmoves

end Start

/-- A session whose records have the identities of a list, in the order of their creation. -/
structure Tracks (state : FilePath) (d : Location) (line : List Task.Identity) (s : Session) :
    Prop extends s.Stored state d where
  mem_iff : ∀ i, i ∈ line ↔ Knows Task.identity s.desk.host.files d i
  remembers : ∀ t, s.Remembers t → t.identity ∈ line
  names : line.Pairwise fun i j => i.name ≠ j.name
  not_blank : ∀ i ∈ line, ∀ name, i.name = .text name → Text.strip name ≠ []
  instants : line.Pairwise fun i j => i.created.instant < j.created.instant

namespace Tracks

variable {line : List Task.Identity}

theorem withFiles (h : s.Tracks state d line) {files : FileSystem}
    (hfiles : files.entries.Perm s.desk.host.files.entries) :
    (s.withFiles files).Tracks state d line := by
  refine ⟨h.toStored.withFiles hfiles, fun i => (h.mem_iff i).trans ?_, h.remembers, h.names,
    h.not_blank, h.instants⟩
  exact exists_congr fun t => and_congr_left fun _ => (holds_of_perm hfiles).symm

theorem knows (h : s.Tracks state d line) {t : Task} (ht : s.Remembers t) :
    Knows Task.identity s.desk.host.files d t.identity := (h.mem_iff _).1 (h.remembers t ht)

/-- A step that saves a task of the list, or none, adds nothing to the list. -/
theorem keep (h : s.Tracks state d line) {after : Session} (hafter : after.Stored state d)
    {saved current : Option Task} (hmoves : Desk.Moves state d s.desk saved current after.desk)
    (hsteady : ∀ t, saved = some t ∨ current = some t →
      Knows Task.identity s.desk.host.files d t.identity)
    (hcopies : ∀ t ∈ after.copies, Knows Task.identity s.desk.host.files d t.identity) :
    ∃ more, more.map Task.Identity.id = [] ∧ after.Tracks state d (line ++ more) := by
  have hknows := hmoves.knows_iff Task.steady_identity h.desk fun t ht => hsteady t (.inl ht)
  refine ⟨[], rfl, ?_⟩
  rw [List.append_nil]
  refine ⟨hafter, fun i => (h.mem_iff i).trans (hknows i).symm, fun t ht => (h.mem_iff _).2 ?_,
    h.names, h.not_blank, h.instants⟩
  rcases ht with ht | ht
  · exact hsteady t (.inr (hmoves.current_eq.symm.trans ht))
  · exact hcopies t ht

/-- No task that is held has an id that the list has not. -/
theorem ne_of_nodup (h : s.Tracks state d line) {id : Text}
    (hids : (line.map Task.Identity.id ++ [id]).Nodup) {u : Task}
    (hu : Holds s.desk.host.files d u) : u.id ≠ id := by
  have hmem : u.id ∈ line.map Task.Identity.id :=
    List.mem_map.2 ⟨u.identity, (h.mem_iff _).2 ⟨u, hu, rfl⟩, rfl⟩
  exact (List.nodup_append.1 hids).2.2 _ hmem _ (List.mem_singleton.2 rfl)

/-- A step that creates a task adds it to the list. -/
theorem add (h : s.Tracks state d line) {after : Session} (hafter : after.Stored state d) {t : Task}
    (hmoves : Desk.Moves state d s.desk (some t) (some t) after.desk)
    (hcopies : after.copies = s.copies) {name : Text} {description : Option Text} {host : Host}
    (ht : s.desk.Creates d name description t host)
    (hnew : ∀ u, Holds s.desk.host.files d u → u.id ≠ t.id) :
    after.Tracks state d (line ++ [t.identity]) := by
  have hheld : ∀ i ∈ line, ∃ u, Holds s.desk.host.files d u ∧ u.identity = i :=
    fun i hi => (h.mem_iff i).1 hi
  refine ⟨hafter, fun i => ?_, fun u hu => ?_, ?_, fun i hi text hname => ?_, ?_⟩
  · rw [hmoves.knows_iff_of_new hnew, List.mem_append, List.mem_singleton, h.mem_iff]
  · rcases hu with hu | hu
    · obtain rfl := Option.some.inj (hmoves.current_eq.symm.trans hu)
      exact List.mem_append_right _ (List.mem_singleton.2 rfl)
    · exact List.mem_append_left _ (h.remembers u (.inr (hcopies ▸ hu)))
  · refine List.pairwise_append.2 ⟨h.names, List.pairwise_singleton _ _, fun i hi j hj => ?_⟩
    obtain ⟨u, hu, rfl⟩ := hheld i hi
    obtain rfl := List.mem_singleton.1 hj
    exact fun hname => ht.lacks u hu (hname.trans ht.name_eq)
  · rcases List.mem_append.1 hi with hi | hi
    · exact h.not_blank i hi text hname
    · obtain rfl := List.mem_singleton.1 hi
      obtain rfl := Json.Value.text.inj (ht.name_eq.symm.trans hname)
      exact ht.not_blank
  · refine List.pairwise_append.2 ⟨h.instants, List.pairwise_singleton _ _, fun i hi j hj => ?_⟩
    obtain ⟨u, hu, rfl⟩ := hheld i hi
    obtain rfl := List.mem_singleton.1 hj
    exact ht.latest u hu

/-- Starting a task adds it to the list, if it is created. -/
theorem start (h : s.Tracks state d line) (name : Text) (description : Option Text)
    (hids : (line.map Task.Identity.id ++ created (s, .start name description)).Nodup) :
    ∃ more, more.map Task.Identity.id = created (s, .start name description) ∧
      (s.take (.start name description)).2.Tracks state d (line ++ more) := by
  obtain ⟨result, saved, current, after, ho, hstarted, hmoves, -⟩ := h.desk.start name description
  have hafter : Stored state d { s with desk := after } := ⟨hmoves.toStored, h.copies⟩
  have hcopies : ∀ t ∈ s.copies, Knows Task.identity s.desk.host.files d t.identity :=
    fun t ht => h.knows (.inr ht)
  rw [take_start ho]
  generalize hsource : after.host.ids = ids at hstarted
  cases hstarted with
  | failed lacks =>
    rw [created_start_of_error ho]
    refine h.keep hafter hmoves (fun t ht => ?_) hcopies
    exact h.knows (.inl (ht.resolve_left nofun))
  | @resumed t holds =>
    rw [created_start_of_ok ho, if_pos hsource]
    refine h.keep hafter hmoves (fun u hu => ?_) hcopies
    obtain rfl := Option.some.inj (hu.resolve_left nofun)
    exact ⟨t, holds, rfl⟩
  | @described t holds =>
    rw [created_start_of_ok ho, if_pos hsource]
    refine h.keep hafter hmoves (fun u hu => ?_) hcopies
    obtain rfl := Option.some.inj (or_self_iff.1 hu)
    exact ⟨t, holds, rfl⟩
  | @created t host creates =>
    rw [created_start_of_ok ho, if_neg fun he => creates.ids_ne (hsource.symm.trans he)] at hids ⊢
    exact ⟨[t.identity], rfl, h.add hafter hmoves rfl creates fun u hu => h.ne_of_nodup hids hu⟩

/-- **A step adds the task that it creates to the list**, and changes it in no other way. -/
theorem take (h : s.Tracks state d line) (hn : step.NamesTask)
    (hids : (line.map Task.Identity.id ++ created (s, step)).Nodup) :
    ∃ more, more.map Task.Identity.id = created (s, step) ∧
      (s.take step).2.Tracks state d (line ++ more) := by
  by_cases hstart : ∃ name description, step = .start name description
  · obtain ⟨name, description, rfl⟩ := hstart
    exact h.start name description hids
  have hother : ∀ name description, step ≠ .start name description :=
    fun name description he => hstart ⟨name, description, he⟩
  have hcreated : created (s, step) = [] := by
    cases step <;> first | rfl | exact absurd rfl (hother _ _)
  obtain ⟨saved, current, hdoes, hmoves, -⟩ := h.toStored.does_take hn
  rw [hcreated]
  exact h.keep (h.toStored.take hn) hmoves
    (fun t ht => hdoes.knows Task.steady_identity hother (fun u hu => h.knows hu.remembers) ht)
    (h.toStored.knows_copies hn fun t => h.knows)

end Tracks

/-- **A run adds the tasks that it creates to the list**, one after the other. -/
theorem Run.tracks {P : Session → Ledger.Step → Prop} (hP : ∀ s step, P s step → step.NamesTask)
    {history : List (Session × Ledger.Step)} {last : Session} (hrun : Run P s history last)
    {line : List Task.Identity} (h : s.Tracks state d line)
    (hids : (line.map Task.Identity.id ++ history.flatMap created).Nodup) :
    ∃ more, more.map Task.Identity.id = history.flatMap created ∧
      last.Tracks state d (line ++ more) := by
  induction hrun generalizing line with
  | done => exact ⟨[], rfl, (List.append_nil line).symm ▸ h⟩
  | @step s last step rest allowed _ ih =>
    rw [List.flatMap_cons, ← List.append_assoc] at hids
    obtain ⟨new, hnew, hstep⟩ := h.take (hP s step allowed) (List.nodup_append.1 hids).1
    rw [← hnew, ← List.map_append] at hids
    obtain ⟨more, hmore, hlast⟩ := ih hstep hids
    refine ⟨new ++ more, ?_, (List.append_assoc line new more) ▸ hlast⟩
    rw [List.map_append, hnew, hmore, List.flatMap_cons]
  | relist same _ ih => exact ih (h.withFiles same) hids

/-- A ledger that has been opened in an empty state directory has no tasks yet. -/
theorem tracks_opened {h : Host} {pointer : Option FilePath} (hf : h.IsFresh state d) (vcs : Vcs)
    (hp : ∀ p, pointer = some p → p = state.child pointerName) :
    (opened h state d vcs pointer).Tracks state d [] := by
  refine ⟨stored_opened hf vcs hp, fun i => ⟨nofun, ?_⟩, ?_, .nil, nofun, .nil⟩
  · rintro ⟨t, ht, -⟩
    exact nomatch (entryAt_withTasks_record hf (recordName t.id)).symm.trans ht.2
  · rintro t (ht | ht)
    · exact nomatch ht
    · exact nomatch ht

end Session

end ReplyLedger
