import ReplyLedger.Ledger.Steps
import ReplyLedger.Proofs.Host.Sparing
import ReplyLedger.Proofs.Ledger.Store

/-!
# Ledgers in order

A ledger is in order on its host (`Desk.InOrder`) if its store is, and memory, records and pointer
agree on the current task: its record is the one in the store, and the pointer holds its id. Saving
the current task (`InOrder.saveCurrent`) and setting another one (`Standing.setCurrent`) keep this,
and so does whatever spares the files (`InOrder.spared`). A ledger in order is opened as it is
(`InOrder.outcome_openIn`).
-/

namespace ReplyLedger

open FileSystem LedgerAction

/-! ## Steps of a ledger -/

section Outcome

variable {α : Type}

theorem outcome_lift (act : Action α) (desk : Desk) :
    outcome (liftM act : LedgerAction α) desk =
      ((outcome act desk.host).1, { desk with host := (outcome act desk.host).2 }) := rfl

theorem outcome_lift_of_eq {act : Action α} {desk : Desk} {result : Except Failure α} {host : Host}
    (h : outcome act desk.host = (result, host)) :
    outcome (liftM act : LedgerAction α) desk = (result, { desk with host }) := by
  rw [outcome_lift, h]

@[simp] theorem outcome_ledger (desk : Desk) :
    outcome LedgerAction.ledger desk = (.ok desk.ledger, desk) := rfl

@[simp] theorem outcome_update (f : Ledger → Ledger) (desk : Desk) :
    outcome (update f) desk = (.ok (), { desk with ledger := f desk.ledger }) := rfl

@[simp] theorem outcome_ledgerFail (f : Failure) (desk : Desk) :
    outcome (LedgerAction.fail f : LedgerAction α) desk = (.error f, desk) := rfl

theorem outcome_currentTask (desk : Desk) :
    outcome currentTask desk = (.ok desk.ledger.current, desk) := rfl

theorem outcome_needCurrent (desk : Desk) :
    outcome needCurrent desk =
      match desk.ledger.current with
      | some t => (.ok t, desk)
      | none => (.error .noActiveTask, desk) := by
  rw [needCurrent, outcome_bind_of_ok (outcome_currentTask desk)]
  cases desk.ledger.current <;> rfl

end Outcome

/-! ## Supplies -/

/-- Whether the ids to hand out can be ids of tasks, and the times to come can be kept. -/
structure Host.IsSupplied (h : Host) : Prop where
  ids : ∀ id ∈ h.ids.given, ∀ c ∈ id, c ∈ hexDigits
  clock : ∀ t ∈ h.clock, Timestamp.IsKept t.offset
  journalTime : Timestamp.IsKept h.journalTime.offset

theorem Host.IsSupplied.spared {h h' : Host} (hs : h.IsSupplied) (hh : h.Spared h') :
    h'.IsSupplied where
  ids := fun id hid => hs.ids id (hh.ids hid)
  clock := fun t ht => hs.clock t (hh.clock ht)
  journalTime := hh.journalTime ▸ hs.journalTime

/-- A new id can be the id of a task, if those to hand out can. -/
theorem Action.outcome_newId_isId {h : Host} (hs : ∀ id ∈ h.ids.given, ∀ c ∈ id, c ∈ hexDigits) :
    ∃ id h', outcome Action.newId h = (.ok id, h') ∧ h.Spared h' ∧ IsId id := by
  obtain ⟨id, h', ho, hh, hid⟩ := Action.outcome_newId h
  refine ⟨id, h', ho, hh, ?_⟩
  rcases hid with ⟨given, hg, rfl⟩ | ⟨n, rfl⟩
  · exact ⟨List.length_take_le _ _, fun c hc => hs given hg c (List.mem_of_mem_take hc)⟩
  · exact isId_ofHexPadded n

theorem Host.IsSupplied.newId {h : Host} (hs : h.IsSupplied) : ∃ id h',
    outcome Action.newId h = (.ok id, h') ∧ h.Spared h' ∧ IsId id :=
  Action.outcome_newId_isId hs.ids

theorem Host.IsSupplied.now {h : Host} (hs : h.IsSupplied) : ∃ t h',
    outcome Action.now h = (.ok t, h') ∧ h.Spared h' ∧ Timestamp.IsKept t.offset := by
  obtain ⟨t, h', ho, hh, ht⟩ := Action.outcome_now h
  refine ⟨t, h', ho, hh, ?_⟩
  rcases ht with ht | rfl
  · exact hs.clock t ht
  · exact hs.journalTime

/-! ## The pointer -/

namespace Ledger

variable {h : Host} {l : Ledger} {state : FilePath} {d : Location} {t : Task}

/-- The line that the pointer to a task holds. -/
def pointerLine (t : Task) : Text := t.id ++ ['\n']

/-- Whether the pointer in the state directory `d` and the record that it leads to are those of the
current task. -/
def Points (fs : FileSystem) (d : Location) : Option Task → Prop
  | none => fs.entryAt (d ++ [pointerName]) = none
  | some t => t.IsStorable ∧ Recorded fs d t ∧
    fs.entryAt (d ++ [pointerName]) = some (.file (Utf8.encode (pointerLine t)))

/-- Whether the pointer in the state directory `d` holds the id of a task, or is not there if there is
no task. -/
def PointsAt (fs : FileSystem) (d : Location) : Option Task → Prop
  | none => fs.entryAt (d ++ [pointerName]) = none
  | some t => fs.entryAt (d ++ [pointerName]) = some (.file (Utf8.encode (pointerLine t)))

section PointsAt

variable {fs gs : FileSystem} {current : Option Task}

theorem Points.pointsAt (h : Points fs d current) : PointsAt fs d current := by
  cases current with
  | none => exact h
  | some t => exact h.2.2

theorem PointsAt.points (h : PointsAt fs d current)
    (hheld : ∀ t, current = some t → t.IsStorable ∧ Recorded fs d t) : Points fs d current := by
  cases current with
  | none => exact h
  | some t => exact ⟨(hheld t rfl).1, (hheld t rfl).2, h⟩

theorem PointsAt.of_entryAt (h : PointsAt fs d current)
    (he : gs.entryAt (d ++ [pointerName]) = fs.entryAt (d ++ [pointerName])) :
    PointsAt gs d current := by
  cases current with
  | none => exact he.trans h
  | some t => exact he.trans h

/-- The pointer to a task is one to every later state of it. -/
theorem PointsAt.of_id_eq {t u : Task} (h : PointsAt fs d (some t)) (hid : u.id = t.id) :
    PointsAt fs d (some u) := by
  rw [PointsAt, pointerLine, hid]
  exact h

end PointsAt

/-- The host after the pointer has been set to a task, or removed. -/
def withPointer (h : Host) (d : Location) : Option Task → Host
  | none => { h with files := h.files.erase (d ++ [pointerName]) }
  | some t =>
    { h with files := h.files.put (d ++ [pointerName]) (.file (Utf8.encode (pointerLine t))) }

theorem cwd_withPointer (h : Host) (d : Location) (target : Option Task) :
    (withPointer h d target).cwd = h.cwd := by
  cases target <;> rfl

/-- Setting the pointer changes the files only. -/
theorem withPointer_eq (h : Host) (d : Location) (target : Option Task) :
    withPointer h d target = { h with files := (withPointer h d target).files } := by
  cases target <;> rfl

theorem isName_pointerName : isName pointerName := by decide

theorem isName_tasksName : isName tasksName := by decide

theorem parent_child (path : FilePath) (name : Text) : (path.child name).parent = path := by
  simp [FilePath.child, FilePath.parent]

/-- Where the pointer stands, a file or nothing is. -/
def IsSlot (fs : FileSystem) (d : Location) : Prop :=
  ∀ e, fs.entryAt (d ++ [pointerName]) = some e → ∃ bytes, e = .file bytes

theorem outcome_point (hleads : h.files.Leads h.cwd state d) (hslot : IsSlot h.files d)
    (hp : l.pointer = some (state.child pointerName)) (target : Option Task) :
    outcome (l.point target) h = (.ok (), withPointer h d target) := by
  cases target with
  | none =>
    simp only [point, hp]
    rcases he : h.files.entryAt (d ++ [pointerName]) with _ | e
    · rw [withPointer, erase_of_vacant he]
      exact Action.outcome_removeIfThere_vacant hleads isName_pointerName he
    · obtain ⟨bytes, rfl⟩ := hslot e he
      exact Action.outcome_removeIfThere hleads he
  | some t =>
    simp only [point, hp]
    rw [parent_child, outcome_bind_of_ok (Action.outcome_ensureDirectories_present hleads)]
    exact Action.outcome_writeText hleads isName_pointerName hslot (pointerLine t)

theorem entryAt_withPointer_of_ne {r : Location} (hr : r ≠ d ++ [pointerName])
    (target : Option Task) : (withPointer h d target).files.entryAt r = h.files.entryAt r := by
  cases target with
  | none => exact entryAt_erase_of_ne hr
  | some t => exact entryAt_put_of_ne _ hr

theorem entryAt_withPointer_none (hslot : IsSlot h.files d) :
    (withPointer h d none).files.entryAt (d ++ [pointerName]) = none := by
  have hd : ¬ h.files.IsDirectory (d ++ [pointerName]) := by
    intro hd
    obtain ⟨bytes, hb⟩ := hslot _ hd
    simp at hb
  change (h.files.erase _).entryAt _ = none
  rw [entryAt_erase hd, if_pos rfl]

theorem entryAt_withPointer_some (hs : Store h.files h.cwd state d) (hslot : IsSlot h.files d)
    (t : Task) : (withPointer h d (some t)).files.entryAt (d ++ [pointerName]) =
      some (.file (Utf8.encode (pointerLine t))) := by
  have ha : h.files.Accepts (d ++ [pointerName]) := by
    rcases he : h.files.entryAt (d ++ [pointerName]) with _ | e
    · exact accepts_of_vacant hs.leads.isDirectory isName_pointerName he
    · obtain ⟨bytes, rfl⟩ := hslot e he
      exact accepts_of_entryAt he (by simp)
  change (h.files.put _ _).entryAt _ = _
  rw [entryAt_put ha, if_pos rfl]

theorem sameOutside_withPointer (h : Host) (d : Location) (target : Option Task) :
    SameOutside d h.files (withPointer h d target).files :=
  fun _ hr => entryAt_withPointer_of_ne (fun he => hr (.inl he)) target

theorem pointsAt_withPointer (hs : Store h.files h.cwd state d) (hslot : IsSlot h.files d)
    (target : Option Task) : PointsAt (withPointer h d target).files d target := by
  cases target with
  | none => exact entryAt_withPointer_none hslot
  | some t => exact entryAt_withPointer_some hs hslot t

theorem keeps_withPointer (hslot : IsSlot h.files d) (target : Option Task) :
    h.files.Keeps (withPointer h d target).files := by
  intro r e hr he
  have hne : r ≠ d ++ [pointerName] := by
    rintro rfl
    obtain ⟨bytes, rfl⟩ := hslot e hr
    exact he bytes rfl
  rw [entryAt_withPointer_of_ne hne, hr]

theorem record_ne_pointer (d : Location) (name : Text) :
    d ++ [tasksName] ++ [name] ≠ d ++ [pointerName] := by
  intro h
  have hlength := congrArg List.length h
  simp at hlength

/-- Setting the pointer keeps the store in order. -/
theorem Store.point (hs : Store h.files h.cwd state d) (hslot : IsSlot h.files d)
    (target : Option Task) : Store (withPointer h d target).files h.cwd state d := by
  have hk := keeps_withPointer hslot target
  refine ⟨hs.leads.keep hk, hk _ _ hs.tasks (by simp), fun name e he => ?_⟩
  rw [entryAt_withPointer_of_ne (record_ne_pointer d name)] at he
  exact hs.records name e he

theorem entryAt_withRecord_pointer (hs : Store h.files h.cwd state d) (ht : t.IsStorable) :
    (withRecord h d t).files.entryAt (d ++ [pointerName]) =
      h.files.entryAt (d ++ [pointerName]) := by
  rw [entryAt_withRecord hs ht, if_neg (record_ne_pointer d _).symm]

theorem Store.outcome_saveCurrent {desk : Desk}
    (hs : Store desk.host.files desk.host.cwd state d)
    (hl : desk.ledger.tasksDirectory = state.child tasksName) (ht : t.IsStorable) :
    outcome (saveCurrent t) desk =
      (.ok (), ⟨withRecord desk.host d t, { desk.ledger with current := some t }⟩) := by
  rw [saveCurrent, outcome_bind_of_ok (outcome_update _ _), outcome_bind_of_ok (outcome_ledger _)]
  exact outcome_lift_of_eq (outcome_save hs hl ht)

end Ledger

/-! ## Ledgers -/

open Ledger

namespace Desk

/-- A ledger that is kept in the state directory `d`, which the path `state` leads to. -/
structure Standing (state : FilePath) (d : Location) (desk : Desk) : Prop where
  store : Store desk.host.files desk.host.cwd state d
  slot : IsSlot desk.host.files d
  supplied : desk.host.IsSupplied
  tasksDirectory : desk.ledger.tasksDirectory = state.child tasksName
  pointer : desk.ledger.pointer = some (state.child pointerName)

/-- A ledger whose current task is the one of its records and of its pointer. -/
structure InOrder (state : FilePath) (d : Location) (desk : Desk) : Prop
    extends Standing state d desk where
  points : Points desk.host.files d desk.ledger.current

variable {state : FilePath} {d : Location} {desk : Desk} {t : Task}

namespace Standing

/-- What spares the files leaves a ledger where it is. -/
theorem spared (hd : Standing state d desk) {host : Host} (hh : desk.host.Spared host)
    (vcs : Vcs) : Standing state d ⟨host, { desk.ledger with vcs }⟩ where
  store := by
    change Store host.files host.cwd state d
    rw [hh.files, hh.cwd]
    exact hd.store
  slot := by
    change IsSlot host.files d
    rw [hh.files]
    exact hd.slot
  supplied := hd.supplied.spared hh
  tasksDirectory := hd.tasksDirectory
  pointer := hd.pointer

/-- Saving a task leaves a ledger where it is. -/
theorem save (hd : Standing state d desk) (ht : t.IsStorable) (current : Option Task) :
    Standing state d ⟨withRecord desk.host d t, { desk.ledger with current }⟩ where
  store := hd.store.save ht
  slot := by
    intro e he
    rw [entryAt_withRecord_pointer hd.store ht] at he
    exact hd.slot e he
  supplied := ⟨hd.supplied.ids, hd.supplied.clock, hd.supplied.journalTime⟩
  tasksDirectory := hd.tasksDirectory
  pointer := hd.pointer

theorem outcome_setCurrent (hd : Standing state d desk) (target : Option Task) :
    outcome (setCurrent target) desk =
      (.ok (), ⟨withPointer desk.host d target, { desk.ledger with current := target }⟩) := by
  have hp : ({ desk.ledger with current := target } : Ledger).pointer =
      some (state.child pointerName) := hd.pointer
  rw [setCurrent, outcome_bind_of_ok (outcome_update _ _),
    outcome_bind_of_ok (outcome_ledger _)]
  exact outcome_lift_of_eq (outcome_point hd.store.leads hd.slot hp target)

/-- Setting the current task puts a ledger in order, if the record of the task is there. -/
theorem setCurrent (hd : Standing state d desk) {target : Option Task}
    (ht : ∀ t, target = some t → t.IsStorable ∧ Recorded desk.host.files d t) :
    InOrder state d
      ⟨withPointer desk.host d target, { desk.ledger with current := target }⟩ where
  store := by
    change Store _ (withPointer desk.host d target).cwd state d
    rw [cwd_withPointer]
    exact hd.store.point hd.slot target
  slot := by
    intro e he
    cases target with
    | none =>
      rw [entryAt_withPointer_none hd.slot] at he
      simp at he
    | some t =>
      rw [entryAt_withPointer_some hd.store hd.slot] at he
      exact ⟨_, (Option.some.inj he).symm⟩
  supplied := by
    obtain ⟨hids, hclock, hjournal⟩ := hd.supplied
    cases target <;> exact ⟨hids, hclock, hjournal⟩
  tasksDirectory := hd.tasksDirectory
  pointer := hd.pointer
  points := by
    refine (pointsAt_withPointer hd.store hd.slot target).points fun t htarget => ?_
    obtain ⟨hstorable, hrecorded⟩ := ht t htarget
    refine ⟨hstorable, ?_⟩
    rw [Recorded, entryAt_withPointer_of_ne (record_ne_pointer d _)]
    exact hrecorded

end Standing

namespace InOrder

theorem isStorable (hd : InOrder state d desk) (hc : desk.ledger.current = some t) :
    t.IsStorable := by
  have hp := hd.points
  rw [hc] at hp
  exact hp.1

/-- What spares the files keeps a ledger in order. -/
theorem spared (hd : InOrder state d desk) {host : Host} (hh : desk.host.Spared host)
    (vcs : Vcs) : InOrder state d ⟨host, { desk.ledger with vcs }⟩ where
  toStanding := hd.toStanding.spared hh vcs
  points := by
    change Points host.files d desk.ledger.current
    rw [hh.files]
    exact hd.points

/-- Saving the current task keeps a ledger in order. -/
theorem saveCurrent (hd : InOrder state d desk) {old : Task} (hold : desk.ledger.current = some old)
    (ht : t.IsStorable) (hid : t.id = old.id) :
    InOrder state d ⟨withRecord desk.host d t, { desk.ledger with current := some t }⟩ where
  toStanding := hd.toStanding.save ht (some t)
  points := by
    have hp := hd.points
    rw [hold] at hp
    refine ⟨ht, recorded_withRecord hd.store ht, ?_⟩
    change (withRecord desk.host d t).files.entryAt (d ++ [pointerName]) = _
    rw [entryAt_withRecord_pointer hd.store ht, hp.2.2, pointerLine, pointerLine, hid]

/-- Saving another task than the current one keeps a ledger in order. -/
theorem saveOther (hd : InOrder state d desk) (ht : t.IsStorable)
    (hother : ∀ c, desk.ledger.current = some c → t.id ≠ c.id) :
    InOrder state d ⟨withRecord desk.host d t, desk.ledger⟩ where
  toStanding := hd.toStanding.save ht desk.ledger.current
  points := by
    have hp := hd.points
    change Points (withRecord desk.host d t).files d desk.ledger.current
    rcases hc : desk.ledger.current with _ | c
    · rw [hc] at hp
      change (withRecord desk.host d t).files.entryAt (d ++ [pointerName]) = none
      rw [entryAt_withRecord_pointer hd.store ht]
      exact hp
    · rw [hc] at hp
      have hne : d ++ [tasksName] ++ [recordName c.id] ≠ d ++ [tasksName] ++ [recordName t.id] := by
        intro he
        have hname := List.append_cancel_left he
        exact hother c hc (recordName_inj (List.cons.inj hname).1).symm
      refine ⟨hp.1, ?_, ?_⟩
      · rw [Recorded, entryAt_withRecord hd.store ht, if_neg hne]
        exact hp.2.1
      · rw [entryAt_withRecord_pointer hd.store ht]
        exact hp.2.2

/-! ### Opening a ledger -/

/-- The pointer of a ledger in order leads to its current task. -/
theorem outcome_restore (hd : InOrder state d desk) {l : Ledger}
    (hl : l.tasksDirectory = state.child tasksName)
    (hp : l.pointer = some (state.child pointerName)) :
    outcome l.restore desk.host = (.ok desk.ledger.current, desk.host) := by
  have hpoints := hd.points
  simp only [restore, hp]
  rcases hc : desk.ledger.current with _ | t
  · rw [hc] at hpoints
    rw [outcome_bind_of_ok (Action.outcome_isFile_vacant hd.store.leads isName_pointerName hpoints)]
    rfl
  · rw [hc] at hpoints
    obtain ⟨ht, hr, hline⟩ := hpoints
    rw [outcome_bind_of_ok (Action.outcome_isFile hd.store.leads hline), if_pos rfl,
      outcome_bind_of_ok (Action.outcome_readText hd.store.leads hline)]
    rw [pointerLine, ht.isId.strip_line, Action.outcome_rescue, outcome_map,
      outcome_find_of_recorded hd.store hl ht hr]
    rfl

/-- **A ledger in order is opened as it is**: the same ledger, on the same host. -/
theorem outcome_openIn (hd : InOrder state d desk) :
    outcome (openIn (state.child tasksName) desk.ledger.vcs (some (state.child pointerName)))
      desk.host = (.ok desk.ledger, desk.host) := by
  have hpresent := Action.outcome_ensureDirectories_present hd.store.leads_tasks
  have hrestore := hd.outcome_restore
    (l := ⟨state.child tasksName, some (state.child pointerName), desk.ledger.vcs, none⟩) rfl rfl
  have hl : ({ tasksDirectory := state.child tasksName
               pointer := some (state.child pointerName)
               vcs := desk.ledger.vcs
               current := desk.ledger.current } : Ledger) = desk.ledger := by
    rw [← hd.tasksDirectory, ← hd.pointer]
  rw [openIn]
  dsimp only
  rw [outcome_bind_of_ok hpresent, outcome_bind_of_ok hrestore, hl]
  rfl

end InOrder

end Desk

end ReplyLedger
