import ReplyLedger.Proofs.Ledger.Straying
import ReplyLedger.Proofs.Ledger.Tracking

/-!
# The roll of a run

The tasks that a run creates are on its roll (`Session.creations`). From a directory without records,
whatever else there is on the host, the roll is what the store holds: every record is that of a task
on the roll, every id on the roll has its record, and what is in memory is on the roll, too
(`Session.Enrolled`). Every step that looks up no id that strays keeps this, and writes in the store
only (`Enrolled.take`); so does every run (`Run.enrolled`).
-/

namespace ReplyLedger

open FileSystem Ledger LedgerAction

namespace Session

variable {state : FilePath} {d : Location} {s : Session} {step : Ledger.Step}

/-- The identity of the task that a step creates, if it is a start that takes a new id. -/
def creations : Session × Ledger.Step → List Task.Identity
  | (s, .start name description) =>
    match s.take (.start name description) with
    | (.ok (.task t), after) => if after.desk.host.ids = s.desk.host.ids then [] else [t.identity]
    | _ => []
  | _ => []

/-- The ids of the tasks that a step creates. -/
theorem map_id_creations (x : Session × Ledger.Step) :
    (creations x).map Task.Identity.id = created x := by
  obtain ⟨s, step⟩ := x
  cases step with
  | start name description =>
    rw [creations, created]
    rcases s.take (.start name description) with ⟨f | answer, after⟩
    · rfl
    · cases answer with
      | task t =>
        dsimp only
        split <;> rfl
      | _ => rfl
  | _ => rfl

/-- An id has been given to a task that is on the roll. -/
theorem mem_created_iff {history : List (Session × Ledger.Step)} {id : Text} :
    id ∈ history.flatMap created ↔ ∃ i ∈ history.flatMap creations, i.id = id := by
  have hmap : history.flatMap created = (history.flatMap creations).map Task.Identity.id := by
    rw [List.map_flatMap]
    exact List.flatMap_congr fun x _ => (map_id_creations x).symm
  rw [hmap, List.mem_map]

theorem creations_of_error {f : Failure} (h : s.take step = (.error f, s)) :
    creations (s, step) = [] := by
  cases step with
  | start name description => simp only [creations, h]
  | _ => rfl

section Start

variable {name : Text} {description : Option Text} {after : Desk}

theorem creations_start_of_ok {t : Task}
    (h : outcome (Ledger.start name (descriptionOf description)) s.desk = (.ok t, after)) :
    creations (s, .start name description) =
      if after.host.ids = s.desk.host.ids then [] else [t.identity] := by
  simp only [creations, take_start h]
  rfl

theorem creations_start_of_error {f : Failure}
    (h : outcome (Ledger.start name (descriptionOf description)) s.desk = (.error f, after)) :
    creations (s, .start name description) = [] := by
  simp only [creations, take_start h]
  rfl

end Start

/-! ## Sessions with a roll -/

/-- A session that has come from the file system `origin`, and whose tasks are those of a roll. -/
structure Enrolled (state : FilePath) (d : Location) (origin : FileSystem)
    (roll : List Task.Identity) (s : Session) : Prop extends s.Stored state d where
  outside : SameOutside d origin s.desk.host.files
  held : ∀ t, Holds s.desk.host.files d t → t.identity ∈ roll
  remembers : ∀ t, s.Remembers t → t.identity ∈ roll
  kept : ∀ i ∈ roll, ∃ t, Holds s.desk.host.files d t ∧ t.id = i.id

namespace Enrolled

variable {origin : FileSystem} {roll : List Task.Identity}

/-- What is on the roll stays there when directories list their entries in another order. -/
theorem withFiles (h : s.Enrolled state d origin roll) {files : FileSystem}
    (hfiles : files.entries.Perm s.desk.host.files.entries) :
    (s.withFiles files).Enrolled state d origin roll where
  toStored := h.toStored.withFiles hfiles
  outside := h.outside.trans (sameOutside_of_perm hfiles)
  held := fun t ht => h.held t ((holds_of_perm hfiles).1 ht)
  remembers := h.remembers
  kept := fun i hi =>
    (h.kept i hi).imp fun _ ht => ⟨(holds_of_perm hfiles).2 ht.1, ht.2⟩

/-- A step that saves a task, or none, puts on the roll what it saves. -/
theorem enrol (h : s.Enrolled state d origin roll) {after : Session}
    (hafter : after.Stored state d) {saved current : Option Task}
    (hmoves : Desk.Moves state d s.desk saved current after.desk) {more : List Task.Identity}
    (hnew : ∀ t, saved = some t ∨ current = some t → t.identity ∈ roll ++ more)
    (hcopies : ∀ t ∈ after.copies, t.identity ∈ roll ++ more)
    (hmore : ∀ i ∈ more, ∃ t, saved = some t ∧ t.id = i.id) :
    after.Enrolled state d origin (roll ++ more) where
  toStored := hafter
  outside := h.outside.trans hmoves.outside
  held := by
    intro t ht
    rcases hmoves.holds_iff.1 ht with hsaved | ⟨hbefore, -⟩
    · exact hnew t (.inl hsaved)
    · exact List.mem_append_left _ (h.held t hbefore)
  remembers := by
    rintro t (ht | ht)
    · exact hnew t (.inr (hmoves.current_eq.symm.trans ht))
    · exact hcopies t ht
  kept := by
    intro i hi
    rcases List.mem_append.1 hi with hi | hi
    · obtain ⟨t, ht, hid⟩ := h.kept i hi
      by_cases hsame : ∃ u, saved = some u ∧ u.id = t.id
      · obtain ⟨u, hu, hut⟩ := hsame
        exact ⟨u, hmoves.holds_iff.2 (.inl hu), hut.trans hid⟩
      · have hother : ∀ u, saved = some u → u.id ≠ t.id := fun u hu hut => hsame ⟨u, hu, hut⟩
        exact ⟨t, hmoves.holds_iff.2 (.inr ⟨ht, hother⟩), hid⟩
    · obtain ⟨t, ht, hid⟩ := hmore i hi
      exact ⟨t, hmoves.holds_iff.2 (.inl ht), hid⟩

/-- A start enrols the task that it creates, if it creates one. -/
theorem start (h : s.Enrolled state d origin roll) (name : Text) (description : Option Text) :
    (s.take (.start name description)).2.Enrolled state d origin
      (roll ++ creations (s, .start name description)) := by
  obtain ⟨result, saved, current, after, ho, hstarted, hmoves, -⟩ := h.desk.start name description
  have hafter : Stored state d { s with desk := after } := ⟨hmoves.toStored, h.copies⟩
  have hcopies {more : List Task.Identity} : ∀ t ∈ s.copies, t.identity ∈ roll ++ more :=
    fun t ht => List.mem_append_left _ (h.remembers t (.inr ht))
  have hnone : ∀ i ∈ ([] : List Task.Identity), ∃ t, saved = some t ∧ t.id = i.id :=
    List.forall_mem_nil _
  rw [take_start ho]
  generalize hsource : after.host.ids = ids at hstarted
  cases hstarted with
  | failed lacks =>
    rw [creations_start_of_error ho]
    refine h.enrol hafter hmoves (fun t ht => ?_) hcopies hnone
    exact List.mem_append_left _ (h.remembers t (.inl (ht.resolve_left (by simp))))
  | @resumed t holds =>
    rw [creations_start_of_ok ho, if_pos hsource]
    refine h.enrol hafter hmoves (fun u hu => ?_) hcopies hnone
    obtain rfl := Option.some.inj (hu.resolve_left (by simp))
    exact List.mem_append_left _ (h.held t holds)
  | @described t holds =>
    rw [creations_start_of_ok ho, if_pos hsource]
    refine h.enrol hafter hmoves (fun u hu => ?_) hcopies hnone
    obtain rfl := Option.some.inj (or_self_iff.1 hu)
    exact List.mem_append_left _ (h.held t holds)
  | @created t host creates =>
    rw [creations_start_of_ok ho, if_neg fun he => creates.ids_ne (hsource.symm.trans he)]
    refine h.enrol hafter hmoves (fun u hu => ?_) hcopies fun i hi => ?_
    · obtain rfl := Option.some.inj (or_self_iff.1 hu)
      exact List.mem_append_right _ (List.mem_singleton.2 rfl)
    · obtain rfl := List.mem_singleton.1 hi
      exact ⟨t, rfl, rfl⟩

/-- **A step enrols the task that it creates**, and keeps the store, if it looks up no id that
strays. -/
theorem take (h : s.Enrolled state d origin roll) (hl : s.LooksInside step) :
    (s.take step).2.Enrolled state d origin (roll ++ creations (s, step)) := by
  rcases hl.cases with hn | ⟨f, hf⟩
  swap
  · rw [creations_of_error hf, hf, List.append_nil]
    exact h
  by_cases hstart : ∃ name description, step = .start name description
  · obtain ⟨name, description, rfl⟩ := hstart
    exact h.start name description
  have hother : ∀ name description, step ≠ .start name description :=
    fun name description he => hstart ⟨name, description, he⟩
  have hnone : creations (s, step) = [] := by
    cases step <;> first | rfl | exact absurd rfl (hother _ _)
  obtain ⟨saved, current, hdoes, hmoves, -⟩ := h.toStored.does_take hn
  rw [hnone]
  refine h.enrol (h.toStored.take hn) hmoves (fun t ht => ?_) (fun t ht => ?_)
    (List.forall_mem_nil _)
  · rw [List.append_nil]
    exact hdoes.view Task.steady_identity hother h.held (fun u hu => h.remembers u hu.remembers) ht
  · rw [List.append_nil]
    rcases copy_cases h.desk.store h.desk.tasksDirectory hn ht with hcopy | hheld | hrecorded
    · exact h.remembers t (.inr hcopy)
    · exact h.held t hheld
    · obtain ⟨c, hc, ops, rfl⟩ := hrecorded
      rw [Task.steady_identity.record]
      exact h.remembers c (.inr hc)

end Enrolled

/-- **A run enrols the tasks that it creates**, and keeps the store. -/
theorem Run.enrolled {origin : FileSystem} {roll : List Task.Identity}
    {history : List (Session × Ledger.Step)} {last : Session}
    (hrun : Run LooksInside s history last) (h : s.Enrolled state d origin roll) :
    last.Enrolled state d origin (roll ++ history.flatMap creations) := by
  induction hrun generalizing roll with
  | done => rwa [List.flatMap_nil, List.append_nil]
  | step allowed _ ih =>
    rw [List.flatMap_cons, ← List.append_assoc]
    exact ih (h.take allowed)
  | relist same _ ih => exact ih (h.withFiles same)

end Session

end ReplyLedger
