import ReplyLedger.Ledger.Steps
import ReplyLedger.Proofs.Ledger.Store
import Mathlib.Data.Char
import Mathlib.Data.List.Lex
import Mathlib.Data.List.Nodup
import Mathlib.Data.Prod.Lex

/-!
# What a ledger lists

The tasks that a ledger lists are those that its state directory holds (`exists_listed`), each once
and newest first, in whatever order the directory lists the records. So a list of the tasks that goes
up in time is the listing backwards (`newestFirst_eq_reverse`), and a new task is created after all of
those that are there (`instant_lt_creationTime`).
-/

namespace ReplyLedger

open FileSystem

/-! ## The order of tasks -/

namespace Task

variable {t u : Task}

/-- What lists of tasks are sorted by: the instant of creation, and then the id. -/
def rank (t : Task) : Int ×ₗ Text := toLex (t.created.instant, t.id)

theorem isNewer_iff : t.isNewer u ↔ u.rank < t.rank := by
  rw [isNewer, rank, rank, Prod.Lex.toLex_lt_toLex, Bool.or_eq_true, Bool.and_eq_true,
    decide_eq_true_eq, decide_eq_true_eq, beq_iff_eq, eq_comm (a := t.created.instant)]

theorem not_isNewer_iff : (!t.isNewer u) = true ↔ t.rank ≤ u.rank := by
  rw [Bool.not_eq_true', ← Bool.not_eq_true, isNewer_iff, not_lt]

theorem instant_le_of_rank_le (h : t.rank ≤ u.rank) : t.created.instant ≤ u.created.instant := by
  rcases Prod.Lex.toLex_le_toLex.1 h with h | h
  · exact le_of_lt h
  · exact le_of_eq h.1

theorem rank_le_of_instant_lt (h : t.created.instant < u.created.instant) : t.rank ≤ u.rank :=
  Prod.Lex.toLex_le_toLex.2 (.inl h)

end Task

namespace Ledger

variable {tasks : List Task} {t : Task}

theorem mem_newestFirst : t ∈ newestFirst tasks ↔ t ∈ tasks :=
  (List.mergeSort_perm tasks _).mem_iff

theorem pairwise_newestFirst (tasks : List Task) :
    (newestFirst tasks).Pairwise fun t u => u.rank ≤ t.rank := by
  have hsorted : (newestFirst tasks).Pairwise fun t u => (!u.isNewer t) = true := by
    refine List.pairwise_mergeSort (fun t u v htu huv => ?_) (fun t u => ?_) tasks
    · rw [Task.not_isNewer_iff] at htu huv ⊢
      exact huv.trans htu
    · rw [Bool.or_eq_true, Task.not_isNewer_iff, Task.not_isNewer_iff]
      exact le_total _ _
  exact hsorted.imp Task.not_isNewer_iff.1

/-- A list of the tasks that goes up in time is the one that begins with the newest backwards. -/
theorem newestFirst_eq_reverse {line : List Task} (htasks : tasks.Nodup)
    (hmem : ∀ t, t ∈ line ↔ t ∈ tasks)
    (hline : line.Pairwise fun t u => t.created.instant < u.created.instant) :
    newestFirst tasks = line.reverse := by
  have hinstants : (line.map fun t => t.created.instant).Nodup :=
    List.pairwise_map.2 (hline.imp fun hlt => ne_of_lt hlt)
  have hperm : (newestFirst tasks).Perm line.reverse := by
    refine (List.mergeSort_perm tasks _).trans (.trans ?_ (List.reverse_perm line).symm)
    exact (List.perm_ext_iff_of_nodup htasks hinstants.of_map).2 fun t => (hmem t).symm
  have hreverse : line.reverse.Pairwise fun t u => u.rank ≤ t.rank :=
    List.pairwise_reverse.2 (hline.imp Task.rank_le_of_instant_lt)
  refine hperm.eq_of_pairwise (fun t u ht hu htu hut => ?_) (pairwise_newestFirst tasks) hreverse
  -- no two tasks of the line are of one instant, so they are the same if neither is newer
  have hinstant : t.created.instant = u.created.instant :=
    le_antisymm (Task.instant_le_of_rank_le hut) (Task.instant_le_of_rank_le htu)
  have htline := List.mem_reverse.1 (hperm.mem_iff.1 ht)
  exact List.inj_on_of_nodup_map hinstants htline (List.mem_reverse.1 hu) hinstant

/-! ## The time of a new task -/

/-- **A new task is created after all that are known**, whatever the clock says. -/
theorem instant_lt_creationTime {now created : Timestamp}
    (hc : creationTime (newestFirst tasks) now = .ok created) (ht : t ∈ tasks) :
    t.created.instant < created.instant := by
  have hmem := mem_newestFirst.2 ht
  have hsorted := pairwise_newestFirst tasks
  rcases hnewest : newestFirst tasks with _ | ⟨newest, rest⟩
  · rw [hnewest] at hmem
    exact nomatch hmem
  rw [hnewest] at hc hmem hsorted
  have hle : t.created.instant ≤ newest.created.instant := by
    rcases List.mem_cons.1 hmem with rfl | hrest
    · exact le_refl _
    · exact Task.instant_le_of_rank_le ((List.pairwise_cons.1 hsorted).1 t hrest)
  simp only [creationTime] at hc
  split at hc
  · split at hc
    · rename_i next hnext
      obtain rfl := Except.ok.inj hc
      have hnextInstant := Timestamp.instant_next hnext
      omega
    · exact nomatch hc
  · obtain rfl := Except.ok.inj hc
    omega

/-! ## The tasks of a ledger -/

/-- Whether a state directory holds a task: the task can be kept, and its record is there. -/
def Holds (fs : FileSystem) (d : Location) (t : Task) : Prop := t.IsStorable ∧ Recorded fs d t

variable {h : Host} {l : Ledger} {state : FilePath} {d : Location}

/-- **The tasks that are listed are those that the state directory holds**, each once. -/
theorem exists_listed (hs : Store h.files h.cwd state d)
    (hl : l.tasksDirectory = state.child tasksName) :
    ∃ tasks : List Task, tasks.Nodup ∧ (∀ t, t ∈ tasks ↔ Holds h.files d t) ∧
      ∀ limit, outcome (l.recent limit) h = (.ok (upTo limit (newestFirst tasks)), h) := by
  have hnames : (h.files.namesIn (d ++ [tasksName])).filter
      (fun n => Text.startsWith recordEnding.reverse n.reverse) =
        h.files.namesIn (d ++ [tasksName]) := by
    refine List.filter_eq_self.2 fun n hn => ?_
    obtain ⟨e, he⟩ := mem_namesIn.1 hn
    obtain ⟨t, -, rfl, -⟩ := hs.records n e he
    rw [recordName, List.reverse_append]
    exact Text.startsWith_append _ _
  have hload : ∀ n ∈ h.files.namesIn (d ++ [tasksName]), ∃ t : Task, recordName t.id = n ∧
      Holds h.files d t ∧
        outcome (load? ((state.child tasksName).child n)) h = (.ok (some t), h) := by
    intro n hn
    obtain ⟨e, he⟩ := mem_namesIn.1 hn
    obtain ⟨t, ht, rfl, rfl⟩ := hs.records n e he
    refine ⟨t, rfl, ⟨ht, he⟩, ?_⟩
    rw [load?, Action.outcome_rescue, outcome_map, outcome_load hs ht he]
    rfl
  obtain ⟨tasks, hmap, htasks, hall⟩ := outcome_filterMapM hload
  have hnodup : tasks.Nodup := by
    refine List.Nodup.of_map (fun t => recordName t.id) ?_
    rw [hmap]
    exact nodup_namesIn _ _
  refine ⟨tasks, hnodup, fun t => ⟨htasks t, fun ht => ?_⟩, fun limit => ?_⟩
  · have hname : recordName t.id ∈ tasks.map fun u => recordName u.id := by
      rw [hmap]
      exact mem_namesIn.2 ⟨_, ht.2⟩
    obtain ⟨u, hu, hid⟩ := List.mem_map.1 hname
    obtain ⟨hustorable, hurecorded⟩ := htasks u hu
    exact eq_of_recorded hs ht.1 ht.2 hustorable hurecorded (recordName_inj hid).symm ▸ hu
  · have hlist := Action.outcome_namesEndingIn hs.leads_tasks recordEnding
    rw [hnames] at hlist
    rw [recent, hl, outcome_bind_of_ok hlist, outcome_bind_of_ok hall]
    rfl

end Ledger

end ReplyLedger
