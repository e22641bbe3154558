import ReplyLedger.Ledger.Reply
import ReplyLedger.Proofs.Applier.Outside
import ReplyLedger.Proofs.Ledger.Steps
import ReplyLedger.Proofs.Reply.Sections

/-!
# Recording what a reply has done

When the record of the current task can be written (`Host.Writes`), saving the task writes it and
nothing else (`outcome_saveCurrent`). After the batch of a reply nothing is left to do but that:
memory and record hold the task with the operations that were applied (`applyReply_of_batch`). A batch
that is broken off leaves them as they are (`applyReply_of_brokenOff`).
-/

namespace ReplyLedger

open FileSystem Json

/-- The second host is the first with a file at `p` that holds `bytes`, whatever has been shown. -/
structure Host.WithFile (p : Location) (bytes : Bytes) (h h' : Host) : Prop where
  entryAt : ∀ q, h'.files.entryAt q = if q = p then some (.file bytes) else h.files.entryAt q
  cwd : h'.cwd = h.cwd
  asked : h'.console.asked = h.console.asked
  journalTime : h'.journalTime = h.journalTime
  journalClock : h'.journalClock = h.journalClock

/-- Writing the file of a path changes what stands at `p`, and nothing else. -/
structure Host.Writes (h : Host) (path : FilePath) (p : Location) : Prop where
  accepts : h.files.Accepts p
  outcome : ∀ t, outcome (Action.writeText path.text t) h =
    (.ok (), { h with files := h.files.put p (.file (Utf8.encode t)) })

theorem Host.KeepsFile.writes {root p : Location} {h : Host} {path : FilePath}
    (hk : h.KeepsFile root path p) : h.Writes path p := ⟨hk.accepts, hk.outcome_writeText⟩

/-- A path names a file, which stands at `p` and holds `bytes`. -/
structure Host.NamesFile (h : Host) (path : FilePath) (p : Location) (bytes : Bytes) : Prop where
  hasNul : hasNul path.text = false
  find : h.files.find h.cwd .made path.text = .ok (.entry p (.file bytes))
  entryAt : h.files.entryAt p = some (.file bytes)

/-- A file in a directory that is given by its location. -/
theorem Host.NamesFile.of_names {h : Host} {d : Location} {name : Text} {bytes : Bytes}
    (hd : h.files.IsDirectory d) (he : h.files.entryAt (d ++ [name]) = some (.file bytes)) :
    h.NamesFile ((FilePath.ofNames d).child name) (d ++ [name]) bytes :=
  ⟨Action.hasNul_child (h := h) (.ofNames hd) (isName_of_entryAt he),
    Leads.find_entry (.ofNames hd) .made he (by simp), he⟩

theorem Host.NamesFile.writes {h : Host} {path : FilePath} {p : Location} {bytes : Bytes}
    (hn : h.NamesFile path p bytes) : h.Writes path p where
  accepts := accepts_of_entryAt hn.entryAt (by simp)
  outcome := by
    intro t
    rw [Action.writeText, Action.outcome_change hn.hasNul, changeFile, hn.find]
    rfl

/-- The record of the current task is there, at the location `record`, out of the reach of
operations in the workspace, and holds `bytes`. -/
structure Desk.KeepsOutside (root record : Location) (desk : Desk) (t : Task) (bytes : Bytes) :
    Prop where
  current : desk.ledger.current = some t
  keepsFile : desk.host.KeepsFile root (desk.ledger.recordPath t.id) record
  recorded : desk.host.files.entryAt record = some (.file bytes)

namespace Ledger

variable {record : Location} {desk : Desk} {t u : Task}

theorem outcome_needCurrent_of_current (hc : desk.ledger.current = some t) :
    outcome LedgerAction.needCurrent desk = (.ok t, desk) := by
  rw [outcome_needCurrent, hc]

/-- A later state of the current task is saved in memory and in the file of its record. -/
theorem outcome_saveCurrent (hw : desk.host.Writes (desk.ledger.recordPath t.id) record)
    (hid : u.id = t.id) :
    outcome (saveCurrent u) desk =
      (.ok (), ⟨{ desk.host with files := desk.host.files.put record (.file (recordBytes u)) },
        { desk.ledger with current := some u }⟩) := by
  rw [saveCurrent, outcome_bind_of_ok (outcome_update _ _), outcome_bind_of_ok (outcome_ledger _)]
  refine outcome_lift_of_eq ?_
  rw [save, hid]
  exact hw.outcome _

/-- The bytes of the record of a task after operations have been recorded on it: those that it had,
if there are none. -/
def recordedBytes (t : Task) (bytes : Bytes) (ops : List (Operation Value)) : Bytes :=
  if ops = [] then bytes else recordBytes (t.record ops)

@[simp] theorem recordedBytes_nil (t : Task) (bytes : Bytes) : recordedBytes t bytes [] = bytes := rfl

/-- What is shown about a reply does not matter to the files, and asks nothing. -/
theorem outcome_readReply (reply : Text) (h : Host) : ∃ console, console.asked = h.console.asked ∧
    outcome (readReply reply) h =
      (.ok ((Reply.operations reply).map fun op => op.map .text), { h with console }) := by
  refine ⟨_, ?_, outcome_bind_of_ok (Reply.outcome_forM_say .debug _ h)⟩
  rfl

variable {a : Applier} {reply : Text} {ops : List (Operation Value)} {r : BatchReport}
variable {h h' : Host}

/-- What is left to do after a batch: to record what has been applied. -/
theorem outcome_applyReply (hc : desk.ledger.current = some t)
    (hread : outcome (readReply reply) desk.host = (.ok ops, h))
    (hbatch : outcome (a.applyAll ops) h = (.ok r, h')) (hne : ops ≠ []) :
    outcome (applyReply a reply) desk =
      if r.applied = [] then (.ok ⟨ops, r⟩, { desk with host := h' })
      else match outcome (saveCurrent (t.record r.applied)) { desk with host := h' } with
        | (.ok _, after) => (.ok ⟨ops, r⟩, after)
        | (.error f, after) => (.error f, after) := by
  rw [applyReply, outcome_bind_of_ok (outcome_needCurrent_of_current hc),
    outcome_bind_of_ok (outcome_lift_of_eq hread), if_neg (by simpa using hne),
    outcome_bind_of_ok (outcome_lift_of_eq hbatch)]
  by_cases happlied : r.applied = []
  · simp only [happlied, if_true]
    rfl
  · have hrecord : outcome (recordOnCurrent r.applied) { desk with host := h' } =
        outcome (saveCurrent (t.record r.applied) >>= fun _ => pure (t.record r.applied))
          { desk with host := h' } := by
      have hc' : ({ desk with host := h' } : Desk).ledger.current = some t := hc
      rw [recordOnCurrent, outcome_bind_of_ok (outcome_needCurrent_of_current hc'),
        if_neg (by simpa using happlied)]
    simp only [if_neg happlied, List.isEmpty_iff, Bool.not_eq_true', ← Bool.not_eq_true]
    rw [if_pos (by simpa using happlied), outcome_bind, hrecord, outcome_bind]
    rcases outcome (saveCurrent (t.record r.applied)) { desk with host := h' } with ⟨_ | _, after⟩
    · rfl
    · rfl

/-- A reply without operations is only talked about. -/
theorem outcome_applyReply_nil (hc : desk.ledger.current = some t)
    (hread : outcome (readReply reply) desk.host = (.ok [], h)) :
    outcome (applyReply a reply) desk = (.ok {}, { desk with host := { h with
      console := h.console.emit (.message .debug "No operation blocks found") } }) := by
  rw [applyReply, outcome_bind_of_ok (outcome_needCurrent_of_current hc),
    outcome_bind_of_ok (outcome_lift_of_eq hread)]
  rfl

/-- **What a batch has applied is recorded**, in memory and on the disk, and nothing else is done. -/
theorem applyReply_of_batch {bytes : Bytes} (hc : desk.ledger.current = some t)
    (hread : outcome (readReply reply) desk.host = (.ok ops, h))
    (hbatch : outcome (a.applyAll ops) h = (.ok r, h'))
    (hw : h'.Writes (desk.ledger.recordPath t.id) record)
    (hr : h'.files.entryAt record = some (.file bytes)) :
    ∃ host, outcome (applyReply a reply) desk = (.ok ⟨ops, r⟩,
        ⟨host, { desk.ledger with current := some (t.record r.applied) }⟩) ∧
      h'.WithFile record (recordedBytes t bytes r.applied) host := by
  have hkept (hnone : r.applied = []) (console : Console) (ha : console.asked = h'.console.asked) :
      h'.WithFile record (recordedBytes t bytes r.applied) { h' with console } := by
    refine ⟨fun q => ?_, rfl, ha, rfl, rfl⟩
    split
    · rename_i hq
      rw [hq, hnone]
      exact hr
    · rfl
  have hcurrent (hnone : r.applied = []) :
      desk.ledger = { desk.ledger with current := some (t.record r.applied) } := by
    rw [hnone]
    exact congrArg (fun current => { desk.ledger with current }) hc
  by_cases hops : ops = []
  · subst hops
    obtain ⟨rfl, rfl⟩ : {} = r ∧ h = h' := by simpa [Applier.applyAll] using hbatch
    have hout := outcome_applyReply_nil (a := a) hc hread
    rw [hcurrent rfl] at hout
    exact ⟨_, hout, hkept rfl _ rfl⟩
  · have hout := outcome_applyReply hc hread hbatch hops
    by_cases hnone : r.applied = []
    · rw [if_pos hnone] at hout
      refine ⟨h', ?_, hkept hnone h'.console rfl⟩
      rw [hout, ← hcurrent hnone]
    · have hsave : outcome (saveCurrent (t.record r.applied)) { desk with host := h' } = _ :=
        outcome_saveCurrent hw (t.record_id r.applied)
      rw [if_neg hnone, hsave] at hout
      refine ⟨_, hout, fun q => ?_, rfl, rfl, rfl, rfl⟩
      rw [recordedBytes, if_neg hnone]
      exact entryAt_put hw.accepts _ q

/-- A batch that is broken off breaks off the reply, and nothing is recorded. -/
theorem applyReply_of_brokenOff {f : Failure} (hc : desk.ledger.current = some t)
    (hread : outcome (readReply reply) desk.host = (.ok ops, h))
    (hbatch : outcome (a.applyAll ops) h = (.error f, h')) :
    outcome (applyReply a reply) desk = (.error f, { desk with host := h' }) := by
  have hne : ops ≠ [] := by
    rintro rfl
    exact nomatch hbatch
  rw [applyReply, outcome_bind_of_ok (outcome_needCurrent_of_current hc),
    outcome_bind_of_ok (outcome_lift_of_eq hread), if_neg (by simpa using hne),
    outcome_bind_of_error (outcome_lift_of_eq hbatch)]

end Ledger

end ReplyLedger
