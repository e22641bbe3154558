import ReplyLedger.Proofs.Ledger.Moves

/-!
# Restarts

Each step of a session leaves the ledger in order, also if it fails (`Session.InOrder.take`), as long
as no step saves the current task by way of a copy. So a ledger may be opened anew at any time
(`restart_transparent`). From an empty state directory, after any steps, the ledger that is opened
there is the one in memory: the record of its current task is in the store, and the pointer holds the
id. Whatever steps come after a restart, they have the answers, make the calls and leave the files
that they would have without it.
-/

namespace ReplyLedger

open FileSystem Ledger

/-! ## Sessions in order -/

/-- A ledger in order stays as it is when it is opened anew. -/
theorem Desk.InOrder.outcome_reopen {state : FilePath} {d : Location} {desk : Desk}
    (hd : InOrder state d desk) : outcome reopen desk = (.ok (), desk) := by
  rw [reopen, outcome_bind_of_ok (outcome_ledger _), hd.tasksDirectory, hd.pointer,
    outcome_bind_of_ok (outcome_lift_of_eq hd.outcome_openIn)]
  rfl

namespace Session

/-- A session whose ledger is in order, and whose copies can be kept. -/
structure InOrder (state : FilePath) (d : Location) (s : Session) : Prop where
  desk : Desk.InOrder state d s.desk
  copies : ∀ t ∈ s.copies, t.IsStorable

variable {state : FilePath} {d : Location} {s : Session}

theorem InOrder.stored (hs : s.InOrder state d) : s.Stored state d :=
  ⟨hs.desk.kept.stored, hs.copies⟩

theorem InOrder.holds (hs : s.InOrder state d) {t : Task} (hc : s.desk.ledger.current = some t) :
    Holds s.desk.host.files d t := by
  have hpoints := hs.desk.points
  rw [hc] at hpoints
  exact ⟨hpoints.1, hpoints.2.1⟩

/-- The current task after an allowed step is held: it is the one that the step has saved, or it was
held before and the step has saved no other in its place. -/
theorem InOrder.holds_current (hs : s.InOrder state d) {step : Ledger.Step} (ha : s.Allows step)
    {saved current : Option Task} (hdoes : s.Does d step saved current) {after : Desk}
    (hmoves : Desk.Moves state d s.desk saved current after) {t : Task} (ht : current = some t) :
    Holds after.host.files d t := by
  have of_saved (h : saved = some t) : Holds after.host.files d t := hmoves.holds_iff.2 (.inl h)
  have of_none (h : saved = none) (hheld : Holds s.desk.host.files d t) :
      Holds after.host.files d t := hmoves.holds_iff.2 (.inr ⟨hheld, by simp [h]⟩)
  cases hdoes with
  | nothing => exact of_none rfl (hs.holds ht)
  | takeUp storable recorded => exact of_none rfl (Option.some.inj ht ▸ ⟨storable, recorded⟩)
  | switch storable recorded => exact of_none rfl (Option.some.inj ht ▸ ⟨storable, recorded⟩)
  | reopen recorded => exact of_none rfl (recorded t ht)
  | endCurrent => simp at ht
  | @recordOnCopy index ops u copy some_ops =>
    refine hmoves.holds_iff.2 (.inr ⟨hs.holds ht, fun v hv => ?_⟩)
    obtain rfl := Option.some.inj hv
    rw [u.record_id]
    exact ha u copy t ht
  | describe => exact of_saved ht
  | create => exact of_saved ht
  | addFiles => exact of_saved ht
  | clearFiles => exact of_saved ht
  | record => exact of_saved ht
  | settle => exact of_saved ht

/-- **Every step that is allowed keeps a session in order**, whether it succeeds or fails. -/
theorem InOrder.take (hs : s.InOrder state d) (step : Ledger.Step) (ha : s.Allows step) :
    InOrder state d (s.take step).2 := by
  obtain ⟨saved, current, hdoes, hmoves, -⟩ := hs.stored.does_take ha.namesTask
  exact ⟨hmoves.inOrder hs.desk fun t => hs.holds_current ha hdoes hmoves,
    (hs.stored.take ha.namesTask).copies⟩

/-- Sessions stay in order for as long as their steps are allowed. -/
theorem InOrder.play (hs : s.InOrder state d) {steps : List Ledger.Step}
    (ha : s.AllowsAll steps) : InOrder state d (Session.play steps s).2 :=
  play_induction (fun _ step h hstep => h.take step hstep) hs ha

end Session

/-! ## Ledgers in an empty state directory -/

/-- A host with an empty state directory `d`, which the path `state` leads to. The times to come are
those of a clock whose offset from universal time is kept in records, as that of universal time
itself is. -/
structure Host.IsFresh (h : Host) (state : FilePath) (d : Location) : Prop where
  leads : h.files.Leads h.cwd state d
  empty : h.files.namesIn d = []
  supplied : h.IsSupplied

namespace Ledger

variable {h : Host} {state : FilePath} {d : Location}

/-- The host after the directory of the records has been made. -/
def withTasks (h : Host) (d : Location) : Host :=
  { h with files := h.files.put (d ++ [tasksName]) .directory }

/-- The ledger that is opened in an empty state directory. -/
def fresh (state : FilePath) (vcs : Vcs) : Ledger where
  tasksDirectory := state.child tasksName
  pointer := some (state.child pointerName)
  vcs := vcs

theorem entryAt_eq_none_of_empty (hf : h.IsFresh state d) (name : Text) :
    h.files.entryAt (d ++ [name]) = none := by
  rcases he : h.files.entryAt (d ++ [name]) with _ | e
  · rfl
  · have hmem := mem_namesIn.2 ⟨e, he⟩
    rw [hf.empty] at hmem
    simp at hmem

theorem entryAt_withTasks (hf : h.IsFresh state d) (r : Location) :
    (withTasks h d).files.entryAt r =
      if r = d ++ [tasksName] then some .directory else h.files.entryAt r :=
  entryAt_put (accepts_of_vacant hf.leads.isDirectory isName_tasksName
    (entryAt_eq_none_of_empty hf tasksName)) .directory r

/-- There are no records in the directory that has just been made. -/
theorem entryAt_withTasks_record (hf : h.IsFresh state d) (name : Text) :
    (withTasks h d).files.entryAt (d ++ [tasksName] ++ [name]) = none := by
  have hno : ¬ h.files.IsDirectory (d ++ [tasksName]) := by
    simp [IsDirectory, entryAt_eq_none_of_empty hf]
  rw [entryAt_withTasks hf, if_neg (by simp), entryAt_append_eq_none hno (by simp)]

/-- A ledger without a current task is in order when nothing but the directory of the records has
been made. -/
theorem inOrder_fresh (hf : h.IsFresh state d) (vcs : Vcs) :
    Desk.InOrder state d ⟨withTasks h d, fresh state vcs⟩ := by
  have htasks := entryAt_eq_none_of_empty hf tasksName
  have hleads : (withTasks h d).files.Leads h.cwd state d :=
    hf.leads.keep (keeps_put fun e he => by simp [htasks] at he)
  have habsent : (withTasks h d).files.entryAt (d ++ [pointerName]) = none := by
    have hne : d ++ [pointerName] ≠ d ++ [tasksName] := by
      intro he
      exact absurd (List.append_cancel_left he) (by decide)
    rw [entryAt_withTasks hf, if_neg hne, entryAt_eq_none_of_empty hf]
  refine ⟨⟨⟨hleads, ?_, fun name e he => ?_⟩, fun e he => ?_, ?_, rfl, rfl⟩, habsent⟩
  · change (withTasks h d).files.entryAt _ = _
    rw [entryAt_withTasks hf, if_pos rfl]
  · exact nomatch (entryAt_withTasks_record hf name).symm.trans he
  · rw [habsent] at he
    simp at he
  · exact ⟨hf.supplied.ids, hf.supplied.clock, hf.supplied.journalTime⟩

/-- In an empty state directory, a ledger without a current task is opened. -/
theorem outcome_openIn_fresh (hf : h.IsFresh state d) (vcs : Vcs) :
    outcome (openIn (state.child tasksName) vcs (some (state.child pointerName))) h =
      (.ok (fresh state vcs), withTasks h d) := by
  have hmade := Action.outcome_ensureDirectories_vacant hf.leads isName_tasksName
    (entryAt_eq_none_of_empty hf tasksName)
  have hrestore := (inOrder_fresh hf vcs).outcome_restore (l := fresh state vcs) rfl rfl
  rw [openIn]
  dsimp only
  rw [outcome_bind_of_ok hmade]
  change outcome ((fresh state vcs).restore >>= _) (withTasks h d) = _
  rw [outcome_bind_of_ok hrestore]
  rfl

end Ledger

/-! ## Restarts -/

/-- What stands on the host for the current task of a session: its record, which loads to the task
in memory, and the pointer, which holds its id; and no pointer if there is no current task. -/
structure Session.Persists (s : Session) (pointer : FilePath) : Prop where
  found : ∀ t, s.desk.ledger.current = some t →
    outcome (s.desk.ledger.find t.id) s.desk.host = (.ok t, s.desk.host)
  line : ∀ t, s.desk.ledger.current = some t →
    outcome (Action.readText pointer.text) s.desk.host = (.ok (t.id ++ ['\n']), s.desk.host)
  absent : s.desk.ledger.current = none →
    outcome (Action.pathExists pointer.text) s.desk.host = (.ok false, s.desk.host)

variable {state : FilePath} {d : Location}

theorem Session.InOrder.persists {s : Session} (hs : s.InOrder state d) :
    s.Persists (state.child pointerName) := by
  have hp := hs.desk.points
  have hleads := hs.desk.store.leads
  refine ⟨fun t hc => ?_, fun t hc => ?_, fun hc => ?_⟩
  · rw [hc] at hp
    exact outcome_find_of_recorded hs.desk.store hs.desk.tasksDirectory hp.1 hp.2.1
  · rw [hc] at hp
    exact Action.outcome_readText hleads hp.2.2
  · rw [hc] at hp
    exact Action.outcome_pathExists_vacant hleads isName_pointerName hp

namespace Session

/-- **A restart makes no difference.** After any steps on a ledger that was opened in an empty state
directory, its current task is what the host keeps for it, the ledger that is opened anew is the one
in memory, and all later steps come to the same with it. -/
theorem restart_transparent {h : Host} (hf : h.IsFresh state d) (vcs : Vcs) :
    let opened : Session := ⟨⟨withTasks h d, fresh state vcs⟩, []⟩
    outcome (openIn (state.child tasksName) vcs (some (state.child pointerName))) h =
        (.ok opened.desk.ledger, opened.desk.host) ∧
      ∀ steps, opened.AllowsAll steps →
        let s := (play steps opened).2
        s.Persists (state.child pointerName) ∧
        outcome (openIn (state.child tasksName) s.desk.ledger.vcs
            (some (state.child pointerName))) s.desk.host = (.ok s.desk.ledger, s.desk.host) ∧
        ∀ later, play later (s.take .reopen).2 = play later s := by
  intro opened
  have horder := inOrder_fresh hf vcs
  refine ⟨outcome_openIn_fresh hf vcs, fun steps ha => ?_⟩
  intro s
  have hstart : InOrder state d opened := ⟨horder, by simp [opened]⟩
  have hend : InOrder state d s := hstart.play ha
  have hreopen : (s.take .reopen).2 = s := by
    simp only [take, act, hend.desk.outcome_reopen]
  refine ⟨hend.persists, hend.desk.outcome_openIn, fun later => ?_⟩
  rw [hreopen]

/-! ## Two tasks in a directory that a link leads to -/

/-- A home directory with an empty directory `s`, and a link `l` to that. -/
def linkedStateHost : Host :=
  let files := ((FileSystem.empty.put [['h']] .directory).put [['h'], ['s']] .directory).put
    [['l']] (.link ['h', '/', 's'])
  { Host.ofFiles files with
    home := ['/', 'h']
    ids := { given := [['a', '1'], ['b', '2']] } }

/-- Two tasks are started, and a copy of the first is loaded. -/
def startingSteps : List Ledger.Step :=
  [.start ['A'] none, .load ['a', '1'], .start ['B'] (some ['C'])]

/-- The removal of a file. -/
def removedFile : List MadeOperation := [⟨.delete ['x'], by decide⟩]

/-- The making of a file. -/
def madeFile : List MadeOperation := [⟨.create ['y'] [], by decide⟩]

/-- Operations are recorded on the copy and on the second task, which is committed then. -/
def recordingSteps : List Ledger.Step :=
  [.recordOnCopy 0 removedFile, .record madeFile, .commit]

theorem restart_transparent_twoTasks :
    let state := FilePath.ofText ['l']
    let opened : Session :=
      ⟨⟨withTasks linkedStateHost [['h'], ['s']], fresh state (.noting [] [])⟩, []⟩
    linkedStateHost.IsFresh state [['h'], ['s']] ∧
      opened.AllowsAll (startingSteps ++ recordingSteps) ∧
      let s := (play (startingSteps ++ recordingSteps) opened).2
      s.desk.ledger.current.map Task.status = some .committed ∧
        s.Persists (state.child pointerName) ∧
        ∀ later, play later (s.take .reopen).2 = play later s := by
  intro state opened
  have hleads : linkedStateHost.files.Leads linkedStateHost.cwd state [['h'], ['s']] :=
    ⟨FilePath.isProper_ofText (by decide), by decide, rfl⟩
  have hids : ∀ id ∈ linkedStateHost.ids.given, id.all fun c => hexDigits.contains c := by decide
  have hsupplied : linkedStateHost.IsSupplied := by
    refine ⟨fun id hid c hc => ?_, List.forall_mem_nil _, .inl rfl⟩
    simpa using List.all_eq_true.1 (hids id hid) c hc
  have hfresh : linkedStateHost.IsFresh state [['h'], ['s']] := ⟨hleads, by decide, hsupplied⟩
  have hcopy : ((play startingSteps opened).2.copies[0]?).map Task.id = some ['a', '1'] := by
    decide +kernel
  have hcurrent : (play startingSteps opened).2.desk.ledger.current.map Task.id =
      some ['b', '2'] := by
    decide +kernel
  have hallowed : opened.AllowsAll (startingSteps ++ recordingSteps) := by
    have hid : '/' ∉ ['a', '1'] := by decide
    rw [allowsAll_append]
    refine ⟨⟨trivial, hid, trivial, trivial⟩, ?_, trivial, trivial, trivial⟩
    intro t ht c hc
    have htid : t.id = ['a', '1'] := by simpa [ht] using hcopy
    have hcid : c.id = ['b', '2'] := by simpa [hc] using hcurrent
    rw [htid, hcid]
    decide
  obtain ⟨hpersists, -, hlater⟩ := (restart_transparent hfresh (.noting [] [])).2 _ hallowed
  exact ⟨hfresh, hallowed, by decide +kernel, hpersists, hlater⟩

end Session

end ReplyLedger
