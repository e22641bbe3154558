import ReplyLedger.Proofs.Ledger.Chronology
import ReplyLedger.Proofs.Ledger.Skipping

/-!
# Listings are sorted, complete and the same in any order

Whatever stands in the directory of the records, if nothing there blocks, there is one list of the
tasks that can be read, newest first, and every answer about the tasks is read off it (`Desk.Lists`):
how many of them are listed, which one has a name, and which one is taken up under it
(`listing_sorted`). A host that lists the directory in another order gives a list with the same tasks
(`perm_readable`), and the same list if no two of them are of one instant and one id
(`newestFirst_of_perm`).
-/

namespace ReplyLedger

open FileSystem Json LedgerAction

/-! ## The same entries in another order -/

namespace FileSystem

variable {fs gs : FileSystem}

theorem advance_of_perm (h : gs.entries.Perm fs.entries) (last : LastName) (here : Location)
    (segments : List Text) : gs.advance last here segments = fs.advance last here segments := by
  induction segments generalizing here with
  | nil => rfl
  | cons s rest ih => simp only [advance, ih, entryAt_of_perm h]

theorem walk_of_perm (h : gs.entries.Perm fs.entries) (last : LastName) (links : Nat)
    (here : Location) (segments : List Text) :
    gs.walk last links here segments = fs.walk last links here segments := by
  induction links generalizing here segments with
  | zero => rw [walk, walk, advance_of_perm h]
  | succ links ih =>
    rw [walk, walk, advance_of_perm h]
    rcases fs.advance last here segments with found | error | ⟨directory, target, rest⟩
    · rfl
    · rfl
    · exact ih _ _

theorem find_of_perm (h : gs.entries.Perm fs.entries) (cwd : CurrentDirectory) (last : LastName)
    (path : Text) : gs.find cwd last path = fs.find cwd last path := by
  simp only [find, walk_of_perm h]

theorem perm_namesIn (h : gs.entries.Perm fs.entries) (q : Location) :
    (gs.namesIn q).Perm (fs.namesIn q) :=
  h.filterMap _

theorem Leads.of_perm {cwd : CurrentDirectory} {path : FilePath} {q : Location}
    (hl : fs.Leads cwd path q) (h : gs.entries.Perm fs.entries) : gs.Leads cwd path q :=
  hl.keep fun p _ he _ => (entryAt_of_perm h p).trans he

end FileSystem

namespace Ledger

variable {fs gs : FileSystem} {cwd : CurrentDirectory} {dir : FilePath} {q : Location}
variable {tasks tasks' : List Task}

theorem reading_of_perm (h : gs.entries.Perm fs.entries) (cwd : CurrentDirectory)
    (path : FilePath) : reading gs cwd path = reading fs cwd path := by
  simp only [reading, readFile, status, find_of_perm h]

theorem perm_recordNames (h : gs.entries.Perm fs.entries) (q : Location) :
    (recordNames gs q).Perm (recordNames fs q) :=
  (perm_namesIn h q).filter _

/-- The tasks that can be read are the same, perhaps in another order. -/
theorem perm_readable {h h' : Host} (hfiles : h'.files.entries.Perm h.files.entries)
    (hcwd : h'.cwd = h.cwd) (dir : FilePath) (q : Location) :
    (readable h' dir (recordNames h'.files q)).Perm (readable h dir (recordNames h.files q)) := by
  have hread : readable h' dir (recordNames h'.files q) = readable h dir (recordNames h'.files q) := by
    simp only [readable, reading_of_perm hfiles, hcwd]
  rw [hread]
  exact (perm_recordNames hfiles q).filterMap _

/-- Tasks of which no two are of one rank are sorted in one way, whatever order they come in. -/
theorem newestFirst_of_perm (hranks : (tasks.map Task.rank).Nodup) (h : tasks'.Perm tasks) :
    newestFirst tasks' = newestFirst tasks := by
  have hperm : (newestFirst tasks').Perm (newestFirst tasks) :=
    ((List.mergeSort_perm tasks' _).trans h).trans (List.mergeSort_perm tasks _).symm
  refine hperm.eq_of_pairwise (fun t u ht hu hut htu => ?_) (pairwise_newestFirst tasks')
    (pairwise_newestFirst tasks)
  have ht' := mem_newestFirst.1 (hperm.mem_iff.1 ht)
  exact List.inj_on_of_nodup_map hranks ht' (mem_newestFirst.1 hu) (le_antisymm htu hut)

end Ledger

/-! ## Answers about the tasks -/

namespace Desk

/-- Whether the pointer of the ledger can be set, if it has one: it is the file in a directory that
is there, or nothing is in its place. -/
def CanPoint (desk : Desk) : Prop :=
  ∀ p, desk.ledger.pointer = some p → ∃ state d, p = state.child Ledger.pointerName ∧
    desk.host.files.Leads desk.host.cwd state d ∧ Ledger.IsSlot desk.host.files d

/-- What the ledger answers about its tasks, and what it takes up, is read off a list of them. -/
structure Lists (desk : Desk) (listed : List Task) : Prop where
  /-- All tasks are listed. -/
  all : (outcome (desk.ledger.recent 0) desk.host).1 = .ok listed
  /-- As many as the limit says are listed from the beginning. -/
  limited : ∀ limit : Int, 0 < limit →
    (outcome (desk.ledger.recent limit) desk.host).1 = .ok (listed.take limit.toNat)
  /-- The task with a name is the first one with it. -/
  named : ∀ name, (outcome (desk.ledger.findByName name) desk.host).1 =
    .ok (listed.find? (Ledger.isNamed name))
  /-- That task becomes the current one when a task is started under the name, as it is unless it
  gains a description; it is the answer unless the pointer cannot be set. -/
  started : ∀ name description t, Text.strip name ≠ [] →
    listed.find? (Ledger.isNamed name) = some t →
    (description.isEmpty = true ∨ t.description.isEmpty = false) →
    (outcome (Ledger.start name description) desk).2.ledger.current = some t ∧
      (desk.CanPoint → (outcome (Ledger.start name description) desk).1 = .ok t)

end Desk

namespace Ledger

variable {desk : Desk} {tasks : List Task} {t : Task} {q : Location}

/-- Setting the current task sets it in memory, and succeeds if the pointer can be set. -/
theorem outcome_setCurrent_of_canPoint (desk : Desk) (target : Option Task) :
    (outcome (setCurrent target) desk).2.ledger.current = target ∧
      (desk.CanPoint → (outcome (setCurrent target) desk).1 = .ok ()) := by
  have ho : outcome (setCurrent target) desk =
      outcome (liftM (point { desk.ledger with current := target } target) : LedgerAction Unit)
        { desk with ledger := { desk.ledger with current := target } } := by
    rw [setCurrent, outcome_bind_of_ok (outcome_update _ _), outcome_bind_of_ok (outcome_ledger _)]
  rw [ho, outcome_lift]
  refine ⟨rfl, fun hpoint => ?_⟩
  rcases Option.eq_none_or_eq_some desk.ledger.pointer with hnone | ⟨p, hp⟩
  · simp only [point, hnone]
    rfl
  · obtain ⟨state, d, rfl, hleads, hslot⟩ := hpoint p hp
    have hset := outcome_point (l := { desk.ledger with current := target }) hleads hslot hp target
    exact congrArg Prod.fst hset

/-- The first of the listed tasks that has the name is taken up, as it is if it gains nothing. -/
theorem outcome_start_of_find {name : Text} {description : Value} {host : Host}
    (hrecent : outcome (desk.ledger.recent 0) desk.host = (.ok tasks, host))
    (hblank : Text.strip name ≠ []) (hfind : tasks.find? (isNamed name) = some t)
    (hkeeps : description.isEmpty = true ∨ t.description.isEmpty = false) :
    outcome (start name description) desk =
      outcome (do
          setCurrent (some t)
          pure t)
        ⟨host.told [.message .debug ("Reusing task " ++ t.id ++ " (" ++ name ++ ")")],
          desk.ledger⟩ := by
  have hgains : (!description.isEmpty && t.description.isEmpty) = false := by
    rcases hkeeps with hkeeps | hkeeps <;> simp [hkeeps]
  rw [start, if_neg hblank]
  dsimp only
  rw [outcome_bind_of_ok (outcome_ledger _), outcome_bind_of_ok (outcome_lift_of_eq hrecent)]
  simp only [hfind, hgains, Bool.false_eq_true, if_false]
  rw [outcome_bind_of_ok (outcome_lift_of_eq (Action.outcome_say _ _ host))]
  rfl

/-- Every answer is read off the tasks that can be read, newest first, if nothing blocks. -/
theorem lists_newestFirst
    (hleads : desk.host.files.Leads desk.host.cwd desk.ledger.tasksDirectory q)
    (hpass : ∀ n ∈ recordNames desk.host.files q,
      blocks (reading desk.host.files desk.host.cwd (desk.ledger.tasksDirectory.child n)) = false) :
    desk.Lists (newestFirst (readable desk.host desk.ledger.tasksDirectory
      (recordNames desk.host.files q))) := by
  have hrecent := outcome_recent_of_readings (l := desk.ledger) hleads hpass
  refine ⟨by rw [hrecent]; rfl, fun limit hlimit => by rw [hrecent, upTo, if_pos hlimit],
    fun name => ?_, fun name description t hblank hfind hkeeps => ?_⟩
  · rw [findByName, outcome_bind_of_ok (hrecent 0)]
    rfl
  · rw [outcome_start_of_find (hrecent 0) hblank hfind hkeeps]
    generalize hdesk : Desk.mk _ desk.ledger = told
    obtain ⟨hcurrent, hset⟩ := outcome_setCurrent_of_canPoint told (some t)
    have hpoint : desk.CanPoint → told.CanPoint := by
      rintro hp
      rw [← hdesk]
      exact hp
    rcases ho : outcome (setCurrent (some t)) told with ⟨f | ⟨⟩, after⟩
    · rw [ho] at hcurrent hset
      rw [outcome_bind_of_error ho]
      exact ⟨hcurrent, fun hp => by cases hset (hpoint hp)⟩
    · rw [ho] at hcurrent
      rw [outcome_bind_of_ok ho]
      exact ⟨hcurrent, fun _ => rfl⟩

/-- **Listings are sorted, complete, and the same in any order.** For a ledger whose directory holds
records that can be read and records that are skipped: there is a list of the tasks that can be read,
each as often as there are records of it, that goes down by instant of creation and id, and everything
that the ledger answers about its tasks is read off that list. If no two of the tasks agree in both
instant and id, this is the same list on every host that has the same entries in another order. -/
theorem listing_sorted (desk : Desk)
    (hleads : desk.host.files.Leads desk.host.cwd desk.ledger.tasksDirectory q)
    (hpass : ∀ n ∈ recordNames desk.host.files q,
      blocks (reading desk.host.files desk.host.cwd (desk.ledger.tasksDirectory.child n)) = false) :
    let tasks := readable desk.host desk.ledger.tasksDirectory (recordNames desk.host.files q)
    ∃ listed : List Task, listed.Perm tasks ∧
      (listed.Pairwise fun t u => u.rank ≤ t.rank) ∧ desk.Lists listed ∧
      ((tasks.map Task.rank).Nodup → ∀ turned : Desk, turned.ledger = desk.ledger →
        turned.host.cwd = desk.host.cwd →
        turned.host.files.entries.Perm desk.host.files.entries → turned.Lists listed) := by
  intro tasks
  refine ⟨newestFirst tasks, List.mergeSort_perm tasks _, pairwise_newestFirst tasks,
    lists_newestFirst hleads hpass, fun hranks turned hledger hcwd hfiles => ?_⟩
  have hleads' : turned.host.files.Leads turned.host.cwd turned.ledger.tasksDirectory q := by
    rw [hledger, hcwd]
    exact hleads.of_perm hfiles
  have hlists := lists_newestFirst hleads' fun n hn => by
    rw [reading_of_perm hfiles, hledger, hcwd]
    exact hpass n ((perm_recordNames hfiles q).mem_iff.1 hn)
  have hperm := perm_readable hfiles hcwd desk.ledger.tasksDirectory q
  rwa [hledger, newestFirst_of_perm hranks hperm] at hlists

/-! ### Two tasks of one name and one instant -/

/-- A task with the name `A` from the first midnight. -/
def namesake (id : Text) : Task :=
  { shiftedTask with
    id, name := .text ['A'], created := .midnight (.ofInRange Date.inRange_firstDay), operations := [] }

/-- The records of two namesakes, and a file that is no document. -/
def namesakes : List (Text × Bytes) :=
  [("x.json", recordBytes (namesake ['a'])), ("c.json", Utf8.encode ['{']),
    ("y.json", recordBytes (namesake ['b']))]

/-- The id decides, so the same task is found under the name if the directory is listed backwards. -/
theorem listing_sorted_namesakes :
    let desk : Desk := ⟨cluttered namesakes ['g', '\n'], fresh (FilePath.ofText ['l']) (.noting [] [])⟩
    let turned : Desk := { desk with host := { desk.host with files := desk.host.files.backwards } }
    desk.CanPoint ∧ ∃ t u : Task, t.id = ['b'] ∧ u.id = ['a'] ∧
      t.created.instant = u.created.instant ∧ isNamed ['A'] t ∧ isNamed ['A'] u ∧
      desk.Lists [t, u] ∧ turned.Lists [t, u] := by
  intro desk turned
  have hstate : desk.host.files.Leads desk.host.cwd (FilePath.ofText ['l']) [['h'], ['s']] :=
    ⟨FilePath.isProper_ofText (by decide), by decide +kernel, by decide +kernel⟩
  have hpoint : desk.CanPoint := by
    have hpointer : desk.host.files.entryAt [['h'], ['s'], pointerName] =
        some (.file (Utf8.encode ['g', '\n'])) := by decide +kernel
    intro p hp
    refine ⟨_, _, (Option.some.inj hp).symm, hstate, fun e he => ?_⟩
    exact ⟨_, Option.some.inj (he.symm.trans hpointer)⟩
  have hleads : desk.host.files.Leads desk.host.cwd desk.ledger.tasksDirectory
      [['h'], ['s'], tasksName] := hstate.child (by decide +kernel)
  obtain ⟨listed, hperm, hsorted, hlists, hturned⟩ :=
    listing_sorted desk hleads (by decide +kernel)
  have htasks : (readable desk.host desk.ledger.tasksDirectory (recordNames desk.host.files
      [['h'], ['s'], tasksName])).map (fun t => (t.id, t.created.instant, isNamed ['A'] t)) =
        [(['a'], (namesake ['a']).created.instant, true),
          (['b'], (namesake ['a']).created.instant, true)] := by decide +kernel
  obtain ⟨u, rest, hread, hu, hrest⟩ := List.map_eq_cons_iff.1 htasks
  obtain ⟨t, rfl, ht⟩ := List.map_eq_singleton_iff.1 hrest
  simp only [Prod.mk.injEq] at hu ht
  obtain ⟨hu, huinstant, huname⟩ := hu
  obtain ⟨ht, htinstant, htname⟩ := ht
  rw [hread] at hperm hturned
  have hlt : u.rank < t.rank := by
    have hids : u.id < t.id := by
      rw [hu, ht]
      decide
    rw [Task.rank, Task.rank, Prod.Lex.toLex_lt_toLex]
    exact .inr ⟨huinstant.trans htinstant.symm, hids⟩
  -- the other order is not the one that goes down
  obtain rfl : listed = [t, u] := by
    refine (hperm.trans (.swap t u [])).eq_of_pairwise (fun x y hx hy hxy hyx => ?_) hsorted
      (by simpa using hlt.le)
    have hranks : ([t, u].map Task.rank).Nodup := by simpa using hlt.ne'
    have hx' := (hperm.trans (.swap t u [])).mem_iff.1 hx
    exact List.inj_on_of_nodup_map hranks hx' hy (le_antisymm hyx hxy)
  refine ⟨hpoint, t, u, ht, hu, htinstant.trans huinstant.symm, htname, huname, hlists, ?_⟩
  exact hturned (by simpa using hlt.ne) turned rfl rfl desk.host.files.perm_backwards

end Ledger

end ReplyLedger
