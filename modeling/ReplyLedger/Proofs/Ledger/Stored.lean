import ReplyLedger.Proofs.Ledger.Listing
import ReplyLedger.Proofs.Ledger.Runner

/-!
# Ledgers whose records are in order

A task may be held more than once: by the ledger as its current task, and as a copy that was loaded
apart. What is held in memory can then fall behind its record, and the ledger is in order no longer;
but its state directory is, and what is in memory can be kept (`Desk.Kept`). A ledger need not have a
pointer, either; `Desk.Stored` says of all of them that their records are in order.

`Desk.Moves` says what has become of such a ledger: which task is the current one, and the record of
which task has been saved. Nothing else has changed of the tasks, of the pointer, or outside of the
store.
-/

namespace ReplyLedger

open FileSystem Ledger LedgerAction

/-- A ledger that is opened without a pointer has no current task. -/
theorem Ledger.outcome_openIn_unpointed {h h' : Host} {tasksDirectory : FilePath} (vcs : Vcs)
    (hmade : outcome (Action.ensureDirectories tasksDirectory) h = (.ok (), h')) :
    outcome (openIn tasksDirectory vcs none) h = (.ok ⟨tasksDirectory, none, vcs, none⟩, h') := by
  rw [openIn]
  dsimp only
  rw [outcome_bind_of_ok hmade]
  rfl

/-- Without a pointer, making another task the current one writes nothing. -/
theorem Ledger.outcome_setCurrent_unpointed {desk : Desk} (hp : desk.ledger.pointer = none)
    (target : Option Task) : outcome (setCurrent target) desk =
      (.ok (), { desk with ledger := { desk.ledger with current := target } }) := by
  rw [setCurrent, outcome_bind_of_ok (outcome_update _ _), outcome_bind_of_ok (outcome_ledger _)]
  refine outcome_lift_of_eq ?_
  simp only [point, hp]
  rfl

namespace Desk

/-- A ledger with a state directory in order, whatever the current task in memory is: it need not be
the one of the records, but it can be kept. -/
structure Kept (state : FilePath) (d : Location) (desk : Desk) : Prop where
  onDisk : ∃ target, InOrder state d ⟨desk.host, { desk.ledger with current := target }⟩
  inMemory : ∀ t, desk.ledger.current = some t → t.IsStorable

/-- A ledger whose records are in order, and whose current task can be kept. If it has a pointer,
that is in order, too. -/
structure Stored (state : FilePath) (d : Location) (desk : Desk) : Prop where
  store : Store desk.host.files desk.host.cwd state d
  supplied : desk.host.IsSupplied
  tasksDirectory : desk.ledger.tasksDirectory = state.child tasksName
  inMemory : ∀ t, desk.ledger.current = some t → t.IsStorable
  pointer : desk.ledger.pointer = none ∨ Kept state d desk

/-- A ledger that is stored, with the current task `current` and the records that were there before,
but for that of `saved`. A pointer that led to the current task does so still, and the host is as it
was outside of the store. -/
structure Moves (state : FilePath) (d : Location) (before : Desk) (saved current : Option Task)
    (desk : Desk) : Prop extends Stored state d desk where
  current_eq : desk.ledger.current = current
  pointer_eq : desk.ledger.pointer = before.ledger.pointer
  storable : ∀ t, saved = some t → t.IsStorable
  records : ∀ name, desk.host.files.entryAt (d ++ [tasksName] ++ [name]) =
    match saved with
    | none => before.host.files.entryAt (d ++ [tasksName] ++ [name])
    | some t =>
      if name = recordName t.id then some (.file (recordBytes t))
      else before.host.files.entryAt (d ++ [tasksName] ++ [name])
  pointsAt : desk.ledger.pointer ≠ none →
    PointsAt before.host.files d before.ledger.current → PointsAt desk.host.files d current
  outside : SameOutside d before.host.files desk.host.files

variable {state : FilePath} {d : Location} {before desk : Desk} {t : Task}
variable {saved current : Option Task}

namespace Kept

theorem standing (hd : Kept state d desk) : Standing state d desk := by
  obtain ⟨target, ho⟩ := hd.onDisk
  exact ⟨ho.store, ho.slot, ho.supplied, ho.tasksDirectory, ho.pointer⟩

theorem stored (hd : Kept state d desk) : Stored state d desk :=
  ⟨hd.standing.store, hd.standing.supplied, hd.standing.tasksDirectory, hd.inMemory, .inr hd⟩

theorem spared (hd : Kept state d desk) {host : Host} (hh : desk.host.Spared host) (vcs : Vcs) :
    Kept state d ⟨host, { desk.ledger with vcs }⟩ := by
  obtain ⟨target, ho⟩ := hd.onDisk
  exact ⟨⟨target, ho.spared hh vcs⟩, hd.inMemory⟩

/-- Saving a task keeps a ledger, whether the pointer leads to the task or to another. -/
theorem save (hd : Kept state d desk) (ht : t.IsStorable)
    (hc : ∀ c, current = some c → c.IsStorable) :
    Kept state d ⟨withRecord desk.host d t, { desk.ledger with current }⟩ := by
  obtain ⟨target, ho⟩ := hd.onDisk
  refine ⟨?_, hc⟩
  by_cases hsame : ∃ u, target = some u ∧ t.id = u.id
  · obtain ⟨u, hu, hid⟩ := hsame
    exact ⟨some t, ho.saveCurrent hu ht hid⟩
  · exact ⟨target, ho.saveOther ht fun u hu hid => hsame ⟨u, hu, hid⟩⟩

end Kept

theorem InOrder.kept (hd : InOrder state d desk) : Kept state d desk :=
  ⟨⟨_, hd⟩, fun _ hc => hd.isStorable hc⟩

namespace Stored

theorem spared (hd : Stored state d desk) {host : Host} (hh : desk.host.Spared host) (vcs : Vcs) :
    Stored state d ⟨host, { desk.ledger with vcs }⟩ where
  store := by
    change Store host.files host.cwd state d
    rw [hh.files, hh.cwd]
    exact hd.store
  supplied := hd.supplied.spared hh
  tasksDirectory := hd.tasksDirectory
  inMemory := hd.inMemory
  pointer := hd.pointer.imp_right fun hk => hk.spared hh vcs

theorem save (hd : Stored state d desk) (ht : t.IsStorable)
    (hc : ∀ c, current = some c → c.IsStorable) :
    Stored state d ⟨withRecord desk.host d t, { desk.ledger with current }⟩ where
  store := hd.store.save ht
  supplied := ⟨hd.supplied.ids, hd.supplied.clock, hd.supplied.journalTime⟩
  tasksDirectory := hd.tasksDirectory
  inMemory := hc
  pointer := hd.pointer.imp_right fun hk => hk.save ht hc

theorem outcome_saveCurrent (hd : Stored state d desk) (ht : t.IsStorable) :
    outcome (Ledger.saveCurrent t) desk =
      (.ok (), ⟨withRecord desk.host d t, { desk.ledger with current := some t }⟩) :=
  hd.store.outcome_saveCurrent hd.tasksDirectory ht

theorem moves_refl (hd : Stored state d desk) :
    Moves state d desk none desk.ledger.current desk where
  toStored := hd
  current_eq := rfl
  pointer_eq := rfl
  storable := by simp
  records _ := rfl
  pointsAt _ hp := hp
  outside := .refl d _

end Stored

/-! ## Moves, one after the other -/

namespace Moves

theorem spared (h : Moves state d before saved current desk) {host : Host}
    (hh : desk.host.Spared host) (vcs : Vcs) :
    Moves state d before saved current ⟨host, { desk.ledger with vcs }⟩ where
  toStored := h.toStored.spared hh vcs
  current_eq := h.current_eq
  pointer_eq := h.pointer_eq
  storable := h.storable
  records name := by rw [← h.records name, hh.files]
  pointsAt hn hp := (h.pointsAt hn hp).of_entryAt (by rw [hh.files])
  outside := h.outside.trans (hh.files ▸ .refl d _)

/-- A task is saved, and takes the place of the current one if that is the same task. -/
theorem save {c : Option Task} (h : Moves state d before none c desk) (ht : t.IsStorable)
    (hc : current = c ∨ ∃ old, c = some old ∧ t.id = old.id ∧ current = some t) :
    Moves state d before (some t) current
      ⟨withRecord desk.host d t, { desk.ledger with current }⟩ where
  toStored := by
    refine h.toStored.save ht fun u hu => ?_
    rcases hc with rfl | ⟨old, -, -, rfl⟩
    · exact h.inMemory u (h.current_eq.trans hu)
    · exact Option.some.inj hu ▸ ht
  current_eq := rfl
  pointer_eq := h.pointer_eq
  storable := fun u hu => Option.some.inj hu ▸ ht
  records name := by
    rw [entryAt_withRecord h.store ht, h.records name]
    simp
  pointsAt hn hp := by
    have hat := (h.pointsAt hn hp).of_entryAt (entryAt_withRecord_pointer h.store ht)
    rcases hc with rfl | ⟨old, rfl, hid, rfl⟩
    · exact hat
    · exact hat.of_id_eq hid
  outside := h.outside.trans (sameOutside_withRecord _ d t)

/-- A task that is held becomes the current one, or none does. -/
theorem setCurrent {c : Option Task} (h : Moves state d before saved c desk) {target : Option Task}
    (ht : ∀ t, target = some t → Holds desk.host.files d t) :
    ∃ files, outcome (Ledger.setCurrent target) desk =
        (.ok (), ⟨{ desk.host with files }, { desk.ledger with current := target }⟩) ∧
      Moves state d before saved target
        ⟨{ desk.host with files }, { desk.ledger with current := target }⟩ := by
  rcases h.pointer with hnone | hkept
  · refine ⟨desk.host.files, outcome_setCurrent_unpointed hnone target, ?_⟩
    exact
      { store := h.store
        supplied := h.supplied
        tasksDirectory := h.tasksDirectory
        inMemory := fun t hc => (ht t hc).1
        pointer := .inl hnone
        current_eq := rfl
        pointer_eq := h.pointer_eq
        storable := h.storable
        records := h.records
        pointsAt := fun hn => absurd hnone hn
        outside := h.outside }
  · have hstand := hkept.standing
    have ho := hstand.outcome_setCurrent target
    have hstored := (hstand.setCurrent ht).kept.stored
    rw [withPointer_eq] at ho hstored
    refine ⟨_, ho, ?_⟩
    exact
      { toStored := hstored
        current_eq := rfl
        pointer_eq := h.pointer_eq
        storable := h.storable
        records := fun name =>
          (entryAt_withPointer_of_ne (record_ne_pointer d name) target).trans (h.records name)
        pointsAt := fun _ _ => pointsAt_withPointer hstand.store hstand.slot target
        outside := h.outside.trans (sameOutside_withPointer _ d target) }

end Moves

/-- In a ledger that is opened anew, another task may be the current one; nothing is written. -/
theorem Stored.moves_of_current
    (hd : Stored state d { desk with ledger := { desk.ledger with current } })
    (hp : desk.ledger.pointer ≠ none → PointsAt desk.host.files d current) :
    Moves state d desk none current { desk with ledger := { desk.ledger with current } } where
  toStored := hd
  current_eq := rfl
  pointer_eq := rfl
  storable := by simp
  records _ := rfl
  pointsAt hn _ := hp hn
  outside := .refl d _

/-- The ledger that is opened anew has the task of the pointer for its current one, or none. -/
theorem Stored.reopen (hd : Stored state d desk) : ∃ target,
    outcome Ledger.reopen desk =
        (.ok (), { desk with ledger := { desk.ledger with current := target } }) ∧
      (∀ t, target = some t → Holds desk.host.files d t) ∧
      Moves state d desk none target
        { desk with ledger := { desk.ledger with current := target } } := by
  rw [Ledger.reopen, outcome_bind_of_ok (outcome_ledger _)]
  rcases hd.pointer with hnone | hkept
  · have hopen := outcome_openIn_unpointed desk.ledger.vcs
      (Action.outcome_ensureDirectories_present hd.store.leads_tasks)
    have hl : (⟨state.child tasksName, none, desk.ledger.vcs, none⟩ : Ledger) =
        { desk.ledger with current := none } := by
      rw [← hd.tasksDirectory, ← hnone]
    rw [hnone, hd.tasksDirectory, outcome_bind_of_ok (outcome_lift_of_eq hopen), hl]
    have hstored : Stored state d { desk with ledger := { desk.ledger with current := none } } :=
      ⟨hd.store, hd.supplied, hd.tasksDirectory, by simp, .inl hnone⟩
    exact ⟨none, rfl, by simp, hstored.moves_of_current fun hn => absurd hnone hn⟩
  · obtain ⟨target, ho⟩ := hkept.onDisk
    have hopen : outcome (openIn (state.child tasksName) desk.ledger.vcs
        (some (state.child pointerName))) desk.host =
          (.ok { desk.ledger with current := target }, desk.host) := ho.outcome_openIn
    rw [hd.tasksDirectory, hkept.standing.pointer, outcome_bind_of_ok (outcome_lift_of_eq hopen)]
    have hstored : Stored state d { desk with ledger := { desk.ledger with current := target } } :=
      ho.kept.stored
    refine ⟨target, rfl, fun t ht => ?_, hstored.moves_of_current fun _ => ho.points.pointsAt⟩
    have hpoints := ho.points
    rw [ht] at hpoints
    exact ⟨hpoints.1, hpoints.2.1⟩

namespace Moves

/-- What is held is what was held before, and what has been saved. -/
theorem holds_iff (h : Moves state d before saved current desk) : Holds desk.host.files d t ↔
    saved = some t ∨ Holds before.host.files d t ∧ ∀ u, saved = some u → u.id ≠ t.id := by
  have hrecord := h.records (recordName t.id)
  constructor
  · rintro ⟨ht, hr⟩
    rcases saved with _ | u
    · exact .inr ⟨⟨ht, hrecord.symm.trans hr⟩, nofun⟩
    · by_cases hid : u.id = t.id
      · have hu : Recorded desk.host.files d u := (h.records _).trans (if_pos rfl)
        exact .inl (congrArg some (eq_of_recorded h.store (h.storable u rfl) hu ht hr hid))
      · have hname : recordName t.id ≠ recordName u.id := fun he => hid (recordName_inj he).symm
        refine .inr ⟨⟨ht, ?_⟩, fun v hv => Option.some.inj hv ▸ hid⟩
        exact (hrecord.trans (if_neg hname)).symm.trans hr
  · rintro (rfl | ⟨⟨ht, hr⟩, hother⟩)
    · exact ⟨h.storable t rfl, hrecord.trans (if_pos rfl)⟩
    · refine ⟨ht, ?_⟩
      rcases saved with _ | u
      · exact hrecord.trans hr
      · exact (hrecord.trans (if_neg fun he => hother u rfl (recordName_inj he).symm)).trans hr

/-- A record that is there was there before, or is the one that has been saved. -/
theorem recorded (h : Moves state d before saved current desk) (ht : t.IsStorable)
    (hr : Recorded desk.host.files d t) : saved = some t ∨ Recorded before.host.files d t :=
  (h.holds_iff.1 ⟨ht, hr⟩).imp_right fun hbefore => hbefore.1.2

/-- A ledger that was in order is in order again if its current task is held. -/
theorem inOrder (h : Moves state d before saved current desk) (hb : InOrder state d before)
    (hheld : ∀ t, current = some t → Holds desk.host.files d t) : InOrder state d desk := by
  have hn : desk.ledger.pointer ≠ none := by
    rw [h.pointer_eq, hb.pointer]
    simp
  refine ⟨(h.pointer.resolve_left hn).standing, ?_⟩
  rw [h.current_eq]
  exact (h.pointsAt hn hb.points.pointsAt).points hheld

end Moves

end Desk

/-- A session whose ledger is stored, and whose copies can be kept. -/
structure Session.Stored (state : FilePath) (d : Location) (s : Session) : Prop where
  desk : Desk.Stored state d s.desk
  copies : ∀ t ∈ s.copies, t.IsStorable

end ReplyLedger
