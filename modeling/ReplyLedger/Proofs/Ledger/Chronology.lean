import ReplyLedger.Proofs.Ledger.Tracking

/-!
# Tasks are listed in the order of their creation

Whatever the clock says, the tasks of a ledger are created at instants that go up, and they are listed
in the reverse order of their creation, in whatever order their records are found in the directory
(`recent_reverses_creation`).
-/

namespace ReplyLedger

open Ledger

/-- The same entries in the reverse order. -/
def FileSystem.backwards (fs : FileSystem) : FileSystem where
  entries := fs.entries.reverse
  isTree := by
    have hmem : ∀ {x}, x ∈ fs.entries.reverse → x ∈ fs.entries := List.mem_reverse.1
    refine ⟨?_, fun x hx => fs.isTree.ne_root x (hmem hx), fun x hx => ?_,
      fun x hx => fs.isTree.isName x (hmem hx)⟩
    · rw [List.map_reverse]
      exact List.nodup_reverse.2 fs.isTree.nodup
    · exact (fs.isTree.parent_mem x (hmem hx)).imp_right List.mem_reverse.2

theorem FileSystem.perm_backwards (fs : FileSystem) : fs.backwards.entries.Perm fs.entries :=
  List.reverse_perm _

namespace Session

variable {state : FilePath} {d : Location} {s : Session}

/-- The tasks whose identities are tracked are those that are held, and they are listed backwards. -/
theorem Tracks.exists_tasks {line : List Task.Identity} (h : s.Tracks state d line) :
    ∃ tasks : List Task, tasks.map Task.identity = line ∧
      (∀ t, t ∈ tasks ↔ Holds s.desk.host.files d t) ∧
      (tasks.Pairwise fun t u => t.created.instant < u.created.instant) ∧
      ∀ limit, outcome (s.desk.ledger.recent limit) s.desk.host =
        (.ok (upTo limit tasks.reverse), s.desk.host) := by
  have hheld : ∀ i : { i // i ∈ line }, ∃ t, Holds s.desk.host.files d t ∧ t.identity = i.1 :=
    fun i => (h.mem_iff i.1).1 i.2
  choose task hholds hidentity using hheld
  have hmap : (line.attach.map task).map Task.identity = line := by
    rw [List.map_map]
    exact (List.map_congr_left fun i _ => hidentity i).trans (List.attach_map_subtype_val line)
  have hmem : ∀ t, t ∈ line.attach.map task ↔ Holds s.desk.host.files d t := by
    intro t
    constructor
    · intro ht
      obtain ⟨i, -, rfl⟩ := List.mem_map.1 ht
      exact hholds i
    · intro ht
      have hline := (h.mem_iff _).2 ⟨t, ht, rfl⟩
      have hsame := congrArg Task.Identity.id (hidentity ⟨_, hline⟩)
      have hu := hholds ⟨_, hline⟩
      have heq := eq_of_recorded h.desk.store hu.1 hu.2 ht.1 ht.2 hsame
      exact List.mem_map.2 ⟨_, List.mem_attach _ _, heq⟩
  have hinstants :
      (line.attach.map task).Pairwise fun t u => t.created.instant < u.created.instant := by
    have hline := h.instants
    rw [← hmap] at hline
    have hpairs := List.pairwise_map.1 hline
    exact hpairs
  obtain ⟨listed, hnodup, hlisted, hrecent⟩ := exists_listed h.desk.store h.desk.tasksDirectory
  refine ⟨_, hmap, hmem, hinstants, fun limit => ?_⟩
  rw [hrecent, newestFirst_eq_reverse hnodup (fun t => (hmem t).trans (hlisted t).symm) hinstants]

/-- What comes first is listed, whatever the limit. -/
theorem exists_upTo_cons (limit : Int) (t : Task) (rest : List Task) :
    ∃ listed, upTo limit (t :: rest) = t :: listed := by
  rw [upTo]
  split
  · obtain ⟨n, hn⟩ : ∃ n, limit.toNat = n + 1 := ⟨limit.toNat - 1, by omega⟩
    rw [hn, List.take_succ_cons]
    exact ⟨_, rfl⟩
  · exact ⟨rest, rfl⟩

/-- **Tasks are listed in the reverse order of their creation.** After any run on a ledger that was
opened in an empty state directory, if no id was given to two tasks: the tasks that the state directory
holds are those that were created, at instants that go up in the order of their creation; they are
listed in the reverse order, all of them or as many as the limit says, whatever the order in which the
directory lists their records; and a task that has just been created is the first one listed. -/
theorem recent_reverses_creation {h : Host} {pointer : Option FilePath} (hf : h.IsFresh state d)
    (vcs : Vcs) (hp : ∀ p, pointer = some p → p = state.child pointerName)
    {history : List (Session × Ledger.Step)}
    (hrun : Run (fun _ step => step.NamesTask) (opened h state d vcs pointer) history s)
    (hids : (history.flatMap created).Nodup) :
    let start := opened h state d vcs pointer
    outcome (openIn (state.child tasksName) vcs pointer) h =
        (.ok start.desk.ledger, start.desk.host) ∧
      ∃ tasks : List Task, tasks.map Task.id = history.flatMap created ∧
        (∀ t, t ∈ tasks ↔ Holds s.desk.host.files d t) ∧
        (tasks.Pairwise fun t u => t.created.instant < u.created.instant) ∧
        (∀ limit, outcome (s.desk.ledger.recent limit) s.desk.host =
          (.ok (upTo limit tasks.reverse), s.desk.host)) ∧
        ∀ earlier before step id, history = earlier ++ [(before, step)] →
          created (before, step) = [id] → ∃ t, t.id = id ∧ (before.take step).1 = .ok (.task t) ∧
            ∀ limit, ∃ rest, outcome (s.desk.ledger.recent limit) s.desk.host =
              (.ok (t :: rest), s.desk.host) := by
  refine ⟨outcome_openIn_opened hf vcs hp, ?_⟩
  have hnames : ∀ (s : Session) (step : Ledger.Step), step.NamesTask → step.NamesTask :=
    fun _ _ hn => hn
  obtain ⟨line, hline, htracks⟩ := hrun.tracks hnames (tracks_opened hf vcs hp) hids
  obtain ⟨tasks, hmap, hmem, hinstants, hrecent⟩ := htracks.exists_tasks
  have htasks : tasks.map Task.id = history.flatMap created := by
    rw [← hline, ← List.nil_append line, ← hmap, List.map_map]
    rfl
  refine ⟨tasks, htasks, hmem, hinstants, hrecent, ?_⟩
  rintro earlier before step id rfl hcreated
  obtain ⟨hbefore, -, hafter⟩ := hrun.split
  obtain ⟨name, description, t, rfl, ha, rfl⟩ := exists_of_created hcreated
  rw [List.flatMap_append, List.flatMap_singleton, hcreated] at htasks
  -- the last of the tasks has the id of the one that was answered, and both are held
  obtain ⟨first, last, rfl, -, hlast⟩ := List.map_eq_append_iff.1 htasks
  obtain ⟨u, rfl, hid⟩ := List.map_eq_singleton_iff.1 hlast
  have hu := (hmem u).1 (List.mem_append_right first (List.mem_singleton.2 rfl))
  have ht : Holds s.desk.host.files d t := by
    rw [List.flatMap_append] at hids
    have hunique := (List.nodup_append.1 hids).1
    obtain ⟨_, -, hstart⟩ := hbefore.tracks hnames (tracks_opened hf vcs hp) hunique
    have hheld := (hstart.toStored.holds_start ha).1
    exact ⟨hheld.1, (hafter.entryAt_of_done _).trans hheld.2⟩
  obtain rfl := eq_of_recorded htracks.desk.store hu.1 hu.2 ht.1 ht.2 hid
  refine ⟨u, rfl, ha, fun limit => ?_⟩
  rw [hrecent, List.reverse_append, List.reverse_singleton, List.singleton_append]
  obtain ⟨rest, hrest⟩ := exists_upTo_cons limit u first.reverse
  exact ⟨rest, by rw [hrest]⟩

/-! ### A clock that goes back -/

/-- The clock shows the same time of day twice, but two hours farther east. -/
def eastwardHost : Host :=
  { linkedStateHost with
    clock := [linkedStateHost.journalTime,
      { linkedStateHost.journalTime with offset := 7200000000, offset_lt := by decide }] }

theorem isFresh_eastwardHost : eastwardHost.IsFresh (FilePath.ofText ['l']) [['h'], ['s']] := by
  have hfresh := isFresh_linkedStateHost
  exact ⟨hfresh.leads, hfresh.empty, hfresh.supplied.ids, by decide, hfresh.supplied.journalTime⟩

/-- Two tasks are started, and the ledger is opened anew. -/
def restartingSteps : List Ledger.Step := [.start ['A'] none, .start ['B'] none, .reopen]

/-- The task that is started second is listed first, also if the directory lists its record last. -/
theorem recent_reverses_creation_eastwardHost :
    let state := FilePath.ofText ['l']
    let start := opened eastwardHost state [['h'], ['s']] (.noting [] []) none
    let s := (play restartingSteps start).2
    let turned := s.withFiles s.desk.host.files.backwards
    eastwardHost.IsFresh state [['h'], ['s']] ∧
      eastwardHost.clock.Pairwise (fun t u => u.instant < t.instant) ∧
      Run (fun _ step => step.NamesTask) start (trace restartingSteps start) turned ∧
      (trace restartingSteps start).flatMap created = [['a', '1'], ['b', '2']] ∧
      ∃ t u : Task, t.id = ['a', '1'] ∧ u.id = ['b', '2'] ∧ t.created.instant < u.created.instant ∧
        outcome (turned.desk.ledger.recent 0) turned.desk.host = (.ok [u, t], turned.desk.host) ∧
        outcome (turned.desk.ledger.recent 1) turned.desk.host = (.ok [u], turned.desk.host) := by
  intro state start s turned
  have hp : ∀ p, none = some p → p = state.child pointerName := nofun
  have hnames : ∀ step ∈ restartingSteps, step.NamesTask := by
    simp [restartingSteps, Ledger.Step.NamesTask]
  have hturned := s.desk.host.files.perm_backwards
  have hrun : Run (fun _ step => step.NamesTask) start (trace restartingSteps start) turned := by
    have hplayed : Run (fun _ step => step.NamesTask) start (trace restartingSteps start) s :=
      run_play fun x hx => hnames x.2 (mem_of_mem_trace hx)
    have hall := hplayed.append (.relist hturned .done)
    rwa [List.append_nil] at hall
  have hcreated : (trace restartingSteps start).flatMap created = [['a', '1'], ['b', '2']] := by
    decide +kernel
  have hunique : ((trace restartingSteps start).flatMap created).Nodup := by
    rw [hcreated]
    decide
  obtain ⟨-, tasks, hids, -, hinstants, hrecent, -⟩ :=
    recent_reverses_creation isFresh_eastwardHost _ hp hrun hunique
  rw [hcreated] at hids
  obtain ⟨t, rest, rfl, ht, hrest⟩ := List.map_eq_cons_iff.1 hids
  obtain ⟨u, rfl, hu⟩ := List.map_eq_singleton_iff.1 hrest
  have hlt : t.created.instant < u.created.instant :=
    List.rel_of_pairwise_cons hinstants List.mem_cons_self
  exact ⟨isFresh_eastwardHost, by decide, hrun, hcreated, t, u, ht, hu, hlt, hrecent 0, hrecent 1⟩

end Session

end ReplyLedger
