import ReplyLedger.Proofs.Ledger.Saving
import ReplyLedger.Proofs.Ledger.Stored

/-!
# Records that cannot be read

A state directory may hold anything among the records and in the pointer (`Ledger.StateDirectory`).
Tasks are listed and started in it as if there were only the records that can be read, with a warning
for each of the others (`outcome_recent_of_readings`, `exists_outcome_start`), and a pointer that
names no task is cleared (`outcome_restore_of_passes`); `unreadable_skipped` puts this together.

Some records are in the way, though. An entry blocks the listing (`blocks`) if it is no file, or if it
is a document in which a value has the wrong type (`blocks_reading_file`); the pointer is in the way if
it is not UTF-8, or names a record that cannot be read. `listing_blocked_emptyList` is an example.
-/

namespace ReplyLedger

open FileSystem Json LedgerAction Session

/-- The host after something has been shown. -/
def Host.told (h : Host) (events : List Event) : Host :=
  { h with console := { h.console with transcript := h.console.transcript ++ events } }

theorem Host.told_nil (h : Host) : h.told [] = h := by
  rw [Host.told, List.append_nil]

theorem Host.told_told (h : Host) (events more : List Event) :
    (h.told events).told more = h.told (events ++ more) := by
  simp only [Host.told, List.append_assoc]

namespace Ledger

variable {h : Host} {fs : FileSystem} {cwd : CurrentDirectory} {l : Ledger} {dir state : FilePath}
variable {q d : Location} {name : Text} {bytes : Bytes}

/-! ## Entries of the directory of the records -/

theorem reading_file (hl : fs.Leads cwd dir q)
    (he : fs.entryAt (q ++ [name]) = some (.file bytes)) :
    reading fs cwd (dir.child name) = readRecord bytes :=
  reading_of_readFile
    (FilePath.hasNul_text (hl.isProper.child (isPlain_of_isName (isName_of_entryAt he))))
    (hl.readFile_child he)

theorem reading_directory (hl : fs.Leads cwd dir q) (he : fs.IsDirectory (q ++ [name])) :
    reading fs cwd (dir.child name) = .error (.system .isDirectory (dir.child name).text) := by
  have hn := FilePath.hasNul_text (hl.isProper.child (isPlain_of_isName (isName_of_entryAt he)))
  have hread : fs.readFile cwd (dir.child name).text = .error .isDirectory := by
    rw [readFile, hl.status_child he (by simp)]
    rfl
  rw [reading, hn, if_neg Bool.false_ne_true, hread]

/-- Whether what is read under a name ends the listing of the tasks. -/
def blocks : Except Failure Task → Bool
  | .ok _ => false
  | .error f => !f.isUnreadable

/-- **A file blocks only if it holds a document with a value of the wrong type.** -/
theorem blocks_reading_file (hl : fs.Leads cwd dir q)
    (he : fs.entryAt (q ++ [name]) = some (.file bytes)) :
    blocks (reading fs cwd (dir.child name)) = true ↔
      readRecord bytes = .error (.record .wrongType) := by
  rw [reading_file hl he, readRecord]
  rcases Utf8.decodeWith .strict bytes with fault | text
  · simp [blocks, Failure.isUnreadable, Failure.isMalformed]
  · simp only [parseTask]
    rcases Value.ofDocument text with fault | v
    · simp [blocks, Failure.isUnreadable, Failure.isMalformed]
    · dsimp only
      rcases Task.ofRecord v with fault | t
      · cases fault <;> simp [blocks, Failure.isUnreadable, Failure.isMalformed]
      · simp [blocks]

/-! ## Listing -/

/-- The names of the entries that are taken for records. -/
def recordNames (fs : FileSystem) (q : Location) : List Text :=
  (fs.namesIn q).filter fun n => Text.startsWith recordEnding.reverse n.reverse

/-- The warning about a record that cannot be read. -/
def skipping (name : Text) (f : Failure) : Event :=
  .message .warn ("Skipping unreadable task record " ++ name ++ ": " ++ f.message)

/-- The tasks of those records that can be read. -/
def readable (h : Host) (dir : FilePath) (names : List Text) : List Task :=
  names.filterMap fun n => (reading h.files h.cwd (dir.child n)).toOption

/-- The warnings about the others, one for each. -/
def warnings (h : Host) (dir : FilePath) (names : List Text) : List Event :=
  names.filterMap fun n =>
    match reading h.files h.cwd (dir.child n) with
    | .ok _ => none
    | .error f => some (skipping n f)

theorem outcome_load? (h : Host) (dir : FilePath) (name : Text) :
    outcome (load? (dir.child name)) h =
      match reading h.files h.cwd (dir.child name) with
      | .ok t => (.ok (some t), h)
      | .error f => if f.isUnreadable then (.ok none, h.told [skipping name f]) else (.error f, h) := by
  have hname : (dir.child name).name = name := by simp [FilePath.child, FilePath.name]
  rw [load?, Action.outcome_rescue, outcome_map, outcome_load_eq]
  rcases reading h.files h.cwd (dir.child name) with f | t
  · simp only [Except.map, hname]
    rfl
  · rfl

/-- Records that cannot be read are passed over, with a warning for each. -/
theorem outcome_loadAll (dir : FilePath) {names : List Text} {h : Host}
    (hall : ∀ n ∈ names, blocks (reading h.files h.cwd (dir.child n)) = false) :
    outcome (names.filterMapM fun n => load? (dir.child n)) h =
      (.ok (readable h dir names), h.told (warnings h dir names)) := by
  induction names generalizing h with
  | nil => rw [warnings, List.filterMap_nil, Host.told_nil]; rfl
  | cons n names ih =>
    have hn := hall n List.mem_cons_self
    have hload := outcome_load? h dir n
    rw [List.filterMapM_cons, readable, warnings, List.filterMap_cons, List.filterMap_cons]
    rcases hr : reading h.files h.cwd (dir.child n) with f | t
    · have hf : f.isUnreadable = true := by simpa [hr, blocks] using hn
      have htold : ∀ m ∈ names, blocks (reading (h.told [skipping n f]).files
          (h.told [skipping n f]).cwd (dir.child m)) = false :=
        fun m hm => hall m (List.mem_cons_of_mem n hm)
      simp only [hr, hf, if_true] at hload
      rw [outcome_bind_of_ok hload]
      dsimp only
      rw [ih htold, Host.told_told]
      rfl
    · have hrest := ih fun m hm => hall m (List.mem_cons_of_mem n hm)
      simp only [hr] at hload
      rw [outcome_bind_of_ok hload]
      dsimp only
      rw [outcome_bind_of_ok hrest]
      rfl

/-- A record that blocks ends the listing with its failure. -/
theorem exists_loadAll_error (dir : FilePath) {names : List Text} {h : Host}
    (hsome : ∃ n ∈ names, blocks (reading h.files h.cwd (dir.child n)) = true) :
    ∃ n ∈ names, ∃ f after, reading h.files h.cwd (dir.child n) = .error f ∧
      f.isUnreadable = false ∧
      outcome (names.filterMapM fun n => load? (dir.child n)) h = (.error f, after) := by
  induction names generalizing h with
  | nil => simp at hsome
  | cons n names ih =>
    have hload := outcome_load? h dir n
    rw [List.filterMapM_cons]
    rcases hr : reading h.files h.cwd (dir.child n) with f | t
    · rcases hf : f.isUnreadable with _ | _
      · simp only [hr, hf] at hload
        exact ⟨n, List.mem_cons_self, f, h, hr, hf, outcome_bind_of_error hload⟩
      · have hlater : ∃ m ∈ names, blocks (reading (h.told [skipping n f]).files
            (h.told [skipping n f]).cwd (dir.child m)) = true := by
          obtain ⟨m, hm, hb⟩ := hsome
          rcases List.mem_cons.1 hm with rfl | hm
          · simp [hr, blocks, hf] at hb
          · exact ⟨m, hm, hb⟩
        obtain ⟨m, hm, g, after, hread, hg, ho⟩ := ih hlater
        simp only [hr, hf, if_true] at hload
        refine ⟨m, List.mem_cons_of_mem n hm, g, after, hread, hg, ?_⟩
        rw [outcome_bind_of_ok hload]
        exact ho
    · have hlater : ∃ m ∈ names, blocks (reading h.files h.cwd (dir.child m)) = true := by
        obtain ⟨m, hm, hb⟩ := hsome
        rcases List.mem_cons.1 hm with rfl | hm
        · simp [hr, blocks] at hb
        · exact ⟨m, hm, hb⟩
      obtain ⟨m, hm, g, after, hread, hg, ho⟩ := ih hlater
      simp only [hr] at hload
      refine ⟨m, List.mem_cons_of_mem n hm, g, after, hread, hg, ?_⟩
      rw [outcome_bind_of_ok hload]
      dsimp only
      rw [outcome_bind_of_error ho]

/-- The listing of a directory whatever stands in it, if nothing there blocks. -/
theorem outcome_recent_of_readings (hleads : h.files.Leads h.cwd l.tasksDirectory q)
    (hall : ∀ n ∈ recordNames h.files q,
      blocks (reading h.files h.cwd (l.tasksDirectory.child n)) = false) (limit : Int) :
    outcome (l.recent limit) h =
      (.ok (upTo limit (newestFirst (readable h l.tasksDirectory (recordNames h.files q)))),
        h.told (warnings h l.tasksDirectory (recordNames h.files q))) := by
  rw [recent, outcome_bind_of_ok (Action.outcome_namesEndingIn hleads recordEnding)]
  rw [← recordNames, outcome_bind_of_ok (outcome_loadAll l.tasksDirectory hall)]
  rfl

/-- The listing fails if something in the directory blocks. -/
theorem recent_blocked (hleads : h.files.Leads h.cwd l.tasksDirectory q)
    (hsome : ∃ n ∈ recordNames h.files q,
      blocks (reading h.files h.cwd (l.tasksDirectory.child n)) = true) (limit : Int) :
    ∃ n ∈ recordNames h.files q, ∃ f,
      reading h.files h.cwd (l.tasksDirectory.child n) = .error f ∧ f.isUnreadable = false ∧
        (outcome (l.recent limit) h).1 = .error f := by
  obtain ⟨n, hn, f, after, hread, hf, ho⟩ := exists_loadAll_error l.tasksDirectory hsome
  refine ⟨n, hn, f, hread, hf, ?_⟩
  rw [recent, outcome_bind_of_ok (Action.outcome_namesEndingIn hleads recordEnding)]
  rw [← recordNames, outcome_bind_of_error ho]

/-! ## Opening -/

/-- A state directory with anything among the records and in the pointer. -/
structure StateDirectory (fs : FileSystem) (cwd : CurrentDirectory) (state : FilePath)
    (d : Location) : Prop where
  leads : fs.Leads cwd state d
  /-- The directory of the records is there, or nothing is in its place. -/
  tasks : ∀ e, fs.entryAt (d ++ [tasksName]) = some e → e = .directory
  /-- The entries in it are files and directories. -/
  plain : ∀ name target, fs.entryAt (d ++ [tasksName] ++ [name]) ≠ some (.link target)
  /-- The pointer is a file, or nothing is in its place. -/
  slot : IsSlot fs d

/-- The host with a directory for the records. -/
def prepared (h : Host) (d : Location) : Host :=
  if h.files.IsDirectory (d ++ [tasksName]) then h else withTasks h d

/-- The warning about a pointer that names no task. -/
def clearing (id : Text) : Event :=
  .message .warn ("Current task " ++ id ++ " no longer exists; clearing it")

theorem StateDirectory.outcome_ensureDirectories (hs : StateDirectory h.files h.cwd state d) :
    outcome (Action.ensureDirectories (state.child tasksName)) h = (.ok (), prepared h d) := by
  rw [prepared]
  split
  · rename_i hd
    exact Action.outcome_ensureDirectories_present (hs.leads.child hd)
  · rename_i hd
    have hvacant : h.files.entryAt (d ++ [tasksName]) = none := by
      rcases he : h.files.entryAt (d ++ [tasksName]) with _ | e
      · rfl
      · obtain rfl := hs.tasks e he
        exact absurd he hd
    exact Action.outcome_ensureDirectories_vacant hs.leads isName_tasksName hvacant

/-- Making the directory of the records leaves the way to the state directory and the pointer. -/
theorem StateDirectory.prepared (hs : StateDirectory h.files h.cwd state d) :
    (prepared h d).files.Leads (prepared h d).cwd state d ∧
      (prepared h d).files.entryAt (d ++ [pointerName]) = h.files.entryAt (d ++ [pointerName]) := by
  rw [Ledger.prepared]
  split
  · exact ⟨hs.leads, rfl⟩
  · rename_i hd
    have hne : d ++ [pointerName] ≠ d ++ [tasksName] := by
      intro he
      exact absurd (List.append_cancel_left he) (by decide)
    refine ⟨hs.leads.keep (keeps_put fun e he => ?_), entryAt_put_of_ne _ hne⟩
    obtain rfl := hs.tasks e he
    exact absurd he hd

/-- Without a pointer file there is no current task. -/
theorem outcome_restore_vacant (hleads : h.files.Leads h.cwd state d)
    (hp : l.pointer = some (state.child pointerName))
    (he : h.files.entryAt (d ++ [pointerName]) = none) : outcome l.restore h = (.ok none, h) := by
  simp only [restore, hp]
  rw [outcome_bind_of_ok (Action.outcome_isFile_vacant hleads isName_pointerName he)]
  rfl

/-- What the pointer comes to is decided by the task that it names. -/
theorem outcome_restore_of_find (hleads : h.files.Leads h.cwd state d)
    (hp : l.pointer = some (state.child pointerName)) {text : Text}
    (he : h.files.entryAt (d ++ [pointerName]) = some (.file bytes))
    (ht : Utf8.decodeWith .strict bytes = .ok text) :
    outcome l.restore h =
      match (outcome (l.find (Text.strip text)) h).1 with
      | .ok t => (.ok (some t), h)
      | .error (.unknownTask _) =>
        (.ok none, { h.told [clearing (Text.strip text)] with
          files := h.files.erase (d ++ [pointerName]) })
      | .error f => (.error f, h) := by
  have hn := Action.hasNul_child hleads isName_pointerName
  have hread : outcome (Action.readText (state.child pointerName).text) h = (.ok text, h) :=
    Action.outcome_readText_of_decode hn (hleads.readFile_child he) ht
  have hlooks := looks_find (l := l) (Text.strip text) h
  simp only [restore, hp]
  rw [outcome_bind_of_ok (Action.outcome_isFile hleads he), if_pos rfl, outcome_bind_of_ok hread,
    Action.outcome_rescue, outcome_map]
  rcases hf : outcome (l.find (Text.strip text)) h with ⟨f | t, after⟩
  · rw [hf] at hlooks
    obtain rfl : h = after := hlooks.symm
    cases f with
    | unknownTask id =>
      have htold : (h.told [clearing (Text.strip text)]).files.Leads
          (h.told [clearing (Text.strip text)]).cwd state d := hleads
      have hsaid : outcome (Action.say .warn ("Current task " ++ Text.strip text ++
          " no longer exists; clearing it")) h = (.ok (), h.told [clearing (Text.strip text)]) := rfl
      simp only [Except.map, if_true]
      rw [outcome_bind_of_ok hsaid, outcome_bind_of_ok (Action.outcome_removeIfThere htold he)]
      rfl
    | _ => rfl
  · rw [hf] at hlooks
    obtain rfl : h = after := hlooks.symm
    rfl

/-- Whether the pointer names a task that can be read. -/
def Names (h : Host) (l : Ledger) (d : Location) (t : Task) : Prop :=
  ∃ bytes text, h.files.entryAt (d ++ [pointerName]) = some (.file bytes) ∧
    Utf8.decodeWith .strict bytes = .ok text ∧ (outcome (l.find (Text.strip text)) h).1 = .ok t

/-- Whether the pointer can be read, and leads to no record that cannot be. -/
def PointerPasses (h : Host) (l : Ledger) (d : Location) : Prop :=
  ∀ bytes, h.files.entryAt (d ++ [pointerName]) = some (.file bytes) →
    ∃ text, Utf8.decodeWith .strict bytes = .ok text ∧
      ∀ f, (outcome (l.find (Text.strip text)) h).1 = .error f → ∃ id, f = .unknownTask id

/-- **The pointer gives the ledger the task that it names**, or none if it names none, and is cleared
then. -/
theorem outcome_restore_of_passes (hleads : h.files.Leads h.cwd state d) (hslot : IsSlot h.files d)
    (hp : l.pointer = some (state.child pointerName)) (hpass : PointerPasses h l d) :
    ∃ current after, outcome l.restore h = (.ok current, after) ∧
      (∀ t, current = some t ↔ Names h l d t) ∧
      (current = none → after.files.entryAt (d ++ [pointerName]) = none) := by
  rcases he : h.files.entryAt (d ++ [pointerName]) with _ | e
  · refine ⟨none, h, outcome_restore_vacant hleads hp he, fun t => ?_, fun _ => he⟩
    simp [Names, he]
  · obtain ⟨bytes, rfl⟩ := hslot e he
    obtain ⟨text, htext, hfind⟩ := hpass bytes he
    have ho := outcome_restore_of_find hleads hp he htext
    have hnames (t : Task) : Names h l d t ↔ (outcome (l.find (Text.strip text)) h).1 = .ok t := by
      refine ⟨fun ⟨bytes', text', he', htext', hf⟩ => ?_, fun hf => ⟨bytes, text, he, htext, hf⟩⟩
      obtain rfl : bytes = bytes' := by simpa [he] using he'
      obtain rfl : text = text' := Except.ok.inj (htext.symm.trans htext')
      exact hf
    rcases hf : (outcome (l.find (Text.strip text)) h).1 with f | t
    · obtain ⟨id, rfl⟩ := hfind f hf
      simp only [hf] at ho
      refine ⟨none, _, ho, fun t => ?_, fun _ => ?_⟩
      · simp [hnames, hf]
      · exact entryAt_withPointer_none (h := h) hslot
    · simp only [hf] at ho
      refine ⟨some t, h, ho, fun u => ?_, nofun⟩
      simp [hnames, hf]

/-! ## Starting -/

/-- An entry that does not block is a file, if it is no link. -/
theorem exists_file_of_passes (hleads : fs.Leads cwd dir q)
    (hall : ∀ n ∈ recordNames fs q, blocks (reading fs cwd (dir.child n)) = false) {id : Text}
    {e : Entry} (hplain : ∀ target, e ≠ .link target)
    (he : fs.entryAt (q ++ [recordName id]) = some e) : ∃ bytes, e = .file bytes := by
  cases e with
  | directory =>
    have hmem : recordName id ∈ recordNames fs q := by
      refine List.mem_filter.2 ⟨mem_namesIn.2 ⟨_, he⟩, ?_⟩
      rw [recordName, List.reverse_append]
      exact Text.startsWith_append _ _
    have hpass := hall _ hmem
    rw [reading_directory hleads he] at hpass
    simp [blocks, Failure.isUnreadable, Failure.isMalformed] at hpass
  | file bytes => exact ⟨bytes, rfl⟩
  | link target => exact absurd rfl (hplain target)

/-- Setting the current task does nothing to the records. -/
theorem outcome_setCurrent_of_leads (desk : Desk)
    (hleads : desk.host.files.Leads desk.host.cwd state d) (hslot : IsSlot desk.host.files d)
    (hp : ∀ p, desk.ledger.pointer = some p → p = state.child pointerName) (target : Option Task) :
    ∃ host, outcome (setCurrent target) desk =
        (.ok (), ⟨host, { desk.ledger with current := target }⟩) ∧
      ∀ n, host.files.entryAt (d ++ [tasksName] ++ [n]) =
        desk.host.files.entryAt (d ++ [tasksName] ++ [n]) := by
  rw [setCurrent, outcome_bind_of_ok (outcome_update _ _), outcome_bind_of_ok (outcome_ledger _)]
  rcases Option.eq_none_or_eq_some desk.ledger.pointer with hpointer | ⟨p, hpointer⟩
  · refine ⟨desk.host, outcome_lift_of_eq ?_, fun n => rfl⟩
    simp only [point, hpointer]
    rfl
  · obtain rfl := hp p hpointer
    have hpoint : outcome (point { desk.ledger with current := target } target) desk.host = _ :=
      outcome_point hleads hslot hpointer target
    refine ⟨_, outcome_lift_of_eq hpoint, fun n => ?_⟩
    exact entryAt_withPointer_of_ne (record_ne_pointer d n) target

theorem creationTime_cases (known : List Task) (now : Timestamp) :
    (∃ created, creationTime known now = .ok created) ∨
      creationTime known now = .error .calendarEnd ∧ ∃ t ∈ known, t.created.next? = none := by
  unfold creationTime
  split
  · exact .inl ⟨now, rfl⟩
  · rename_i newest rest
    split
    · rcases hnext : newest.created.next? with _ | created
      · exact .inr ⟨rfl, newest, List.mem_cons_self, hnext⟩
      · exact .inl ⟨created, rfl⟩
    · exact .inl ⟨now, rfl⟩

variable {desk : Desk}

/-- A new task is saved and becomes the current one, where its record is a file or nothing is. -/
theorem exists_outcome_saveNew (desk : Desk)
    (hleads : desk.host.files.Leads desk.host.cwd state d)
    (hdir : desk.host.files.IsDirectory (d ++ [tasksName])) (hslot : IsSlot desk.host.files d)
    (hl : desk.ledger.tasksDirectory = state.child tasksName)
    (hp : ∀ p, desk.ledger.pointer = some p → p = state.child pointerName) {t : Task}
    (hid : IsId t.id)
    (hplace : ∀ e, desk.host.files.entryAt (d ++ [tasksName] ++ [recordName t.id]) = some e →
      ∃ bytes, e = .file bytes) (level : Level) (text : Text) :
    ∃ after, outcome (do
          (liftM (desk.ledger.save t) : LedgerAction Unit)
          setCurrent (some t)
          (liftM (Action.say level text) : LedgerAction Unit)
          pure t) desk = (.ok t, after) ∧
      after.ledger.current = some t ∧ Recorded after.host.files d t ∧
      ∀ n, n ≠ recordName t.id → after.host.files.entryAt (d ++ [tasksName] ++ [n]) =
        desk.host.files.entryAt (d ++ [tasksName] ++ [n]) := by
  have haccepts : desk.host.files.Accepts (d ++ [tasksName] ++ [recordName t.id]) := by
    rcases he : desk.host.files.entryAt (d ++ [tasksName] ++ [recordName t.id]) with _ | e
    · exact accepts_of_vacant hdir (isName_recordName hid) he
    · obtain ⟨bytes, rfl⟩ := hplace e he
      exact accepts_of_entryAt he (by simp)
  have hsave := outcome_save_of_leads (hleads.child hdir) hl hid hplace
  have hslot' : IsSlot (withRecord desk.host d t).files d := by
    intro e he
    have hkept : (withRecord desk.host d t).files.entryAt (d ++ [pointerName]) =
        desk.host.files.entryAt (d ++ [pointerName]) :=
      entryAt_put_of_ne _ (record_ne_pointer d _).symm
    exact hslot e (hkept ▸ he)
  obtain ⟨host, hset, hrecords⟩ := outcome_setCurrent_of_leads
    ⟨withRecord desk.host d t, desk.ledger⟩ (hleads.keep (keeps_put hplace)) hslot' hp
    (some t)
  rw [outcome_bind_of_ok (outcome_lift_of_eq hsave), outcome_bind_of_ok hset,
    outcome_bind_of_ok (outcome_lift_of_eq (Action.outcome_say level text host))]
  refine ⟨_, rfl, rfl, ?_, fun n hn => ?_⟩
  · exact (hrecords _).trans ((entryAt_put haccepts _ _).trans (if_pos rfl))
  · exact (hrecords n).trans (entryAt_put_of_ne _ (by simpa using hn))

/-- **A task with a new name is started whatever the other records are**, if none of them blocks. -/
theorem exists_outcome_start (hs : StateDirectory desk.host.files desk.host.cwd state d)
    (hdir : desk.host.files.IsDirectory (d ++ [tasksName]))
    (hl : desk.ledger.tasksDirectory = state.child tasksName)
    (hp : ∀ p, desk.ledger.pointer = some p → p = state.child pointerName)
    (hids : ∀ id ∈ desk.host.ids.given, ∀ c ∈ id, c ∈ hexDigits)
    (hall : ∀ n ∈ recordNames desk.host.files (d ++ [tasksName]),
      blocks (reading desk.host.files desk.host.cwd ((state.child tasksName).child n)) = false)
    {taskName : Text} (hblank : Text.strip taskName ≠ [])
    (hnew : ∀ t ∈ readable desk.host (state.child tasksName)
      (recordNames desk.host.files (d ++ [tasksName])), isNamed taskName t = false)
    (description : Value) :
    ∃ result after, outcome (start taskName description) desk = (result, after) ∧
      ((∃ t, result = .ok t ∧ t.name = .text taskName ∧ after.ledger.current = some t ∧
          Recorded after.host.files d t ∧ ∀ n, n ≠ recordName t.id →
            after.host.files.entryAt (d ++ [tasksName] ++ [n]) =
              desk.host.files.entryAt (d ++ [tasksName] ++ [n])) ∨
        result = .error .calendarEnd ∧ ∃ t ∈ readable desk.host (state.child tasksName)
          (recordNames desk.host.files (d ++ [tasksName])), t.created.next? = none) := by
  have hleads := hs.leads.child hdir
  have hrecent := outcome_recent_of_readings (l := desk.ledger) (hl ▸ hleads) (hl ▸ hall) 0
  generalize hnames : recordNames desk.host.files (d ++ [tasksName]) = names at hrecent hnew ⊢
  have hnone : (newestFirst (readable desk.host (state.child tasksName) names)).find?
      (isNamed taskName) = none :=
    List.find?_eq_none.2 fun t ht => by simp [hnew t (mem_newestFirst.1 ht)]
  rw [start, if_neg hblank]
  dsimp only
  rw [outcome_bind_of_ok (outcome_ledger _), outcome_bind_of_ok (outcome_lift_of_eq hrecent)]
  simp only [upTo, Int.lt_irrefl, if_false, hl, hnone]
  obtain ⟨id, h₁, hid, hspared₁, hisId⟩ := Action.outcome_newId_isId
    (h := desk.host.told (warnings desk.host (state.child tasksName) names)) hids
  obtain ⟨now, h₂, hnow, hspared₂, -⟩ := Action.outcome_now h₁
  rw [outcome_bind_of_ok (outcome_lift_of_eq hid), outcome_bind_of_ok (outcome_lift_of_eq hnow)]
  have hfiles : h₂.files = desk.host.files := (hspared₁.trans hspared₂).files
  have hcwd : h₂.cwd = desk.host.cwd := (hspared₁.trans hspared₂).cwd
  rcases creationTime_cases (newestFirst (readable desk.host (state.child tasksName) names)) now with
    ⟨created, hcreated⟩ | ⟨hend, t, ht, hnext⟩
  swap
  · rw [hend]
    exact ⟨_, _, rfl, .inr ⟨rfl, t, mem_newestFirst.1 ht, hnext⟩⟩
  rw [hcreated]
  dsimp only
  rw [pure_bind]
  have hplace : ∀ e, h₂.files.entryAt (d ++ [tasksName] ++ [recordName id]) = some e →
      ∃ bytes, e = .file bytes := by
    rw [hfiles]
    intro e he
    refine exists_file_of_passes hleads hall (fun target => ?_) he
    rintro rfl
    exact hs.plain _ _ he
  have hleads₂ : h₂.files.Leads h₂.cwd state d := by
    rw [hfiles, hcwd]
    exact hs.leads
  obtain ⟨after, ho, hcurrent, hrecorded, hothers⟩ := exists_outcome_saveNew
    ⟨h₂, desk.ledger⟩ hleads₂ (hfiles ▸ hdir) (hfiles ▸ hs.slot) hl hp
    (t := ⟨id, .text taskName, if description.isEmpty then .text [] else description, created, [],
      .pending, [], []⟩) hisId hplace .debug
    ("Created task " ++ id ++ " (" ++ taskName ++ ")")
  refine ⟨_, after, ho, .inl ⟨_, rfl, rfl, hcurrent, hrecorded, fun n hn => ?_⟩⟩
  exact (hothers n hn).trans (by rw [hfiles])

/-! ## Whatever the state directory holds -/

/-- **Records that cannot be read are skipped.** In a state directory with anything in it: a ledger
opens with the task that its pointer names, or without a current task and with the pointer cleared;
the tasks that are listed are those of the readable records, with a warning for each of the others;
and a task with a name that none of these has is started, unless the calendar ends. For opening, the
pointer has to be UTF-8, and not to lead to a record that cannot be read; for listing and starting, no
record may block. -/
theorem unreadable_skipped (desk : Desk)
    (hs : StateDirectory desk.host.files desk.host.cwd state d)
    (hl : desk.ledger.tasksDirectory = state.child tasksName)
    (hp : ∀ p, desk.ledger.pointer = some p → p = state.child pointerName)
    (hids : ∀ id ∈ desk.host.ids.given, ∀ c ∈ id, c ∈ hexDigits) :
    let h := desk.host
    let dir := state.child tasksName
    let names := recordNames h.files (d ++ [tasksName])
    let tasks := readable h dir names
    (∀ vcs, outcome (openIn dir vcs none) h = (.ok ⟨dir, none, vcs, none⟩, prepared h d)) ∧
    (∀ vcs, PointerPasses (prepared h d) (fresh state vcs) d →
      ∃ current after, outcome (openIn dir vcs (some (state.child pointerName))) h =
          (.ok { fresh state vcs with current }, after) ∧
        (∀ t, current = some t ↔ Names (prepared h d) (fresh state vcs) d t) ∧
        (current = none → after.files.entryAt (d ++ [pointerName]) = none)) ∧
    (h.files.IsDirectory (d ++ [tasksName]) →
      (∀ n ∈ names, blocks (reading h.files h.cwd (dir.child n)) = false) →
      (∀ limit, outcome (desk.ledger.recent limit) h =
        (.ok (upTo limit (newestFirst tasks)), h.told (warnings h dir names))) ∧
      ∀ name description, Text.strip name ≠ [] → (∀ t ∈ tasks, isNamed name t = false) →
        ∃ result after, outcome (start name description) desk = (result, after) ∧
          ((∃ t, result = .ok t ∧ t.name = .text name ∧ after.ledger.current = some t ∧
              Recorded after.host.files d t ∧ ∀ n, n ≠ recordName t.id →
                after.host.files.entryAt (d ++ [tasksName] ++ [n]) =
                  h.files.entryAt (d ++ [tasksName] ++ [n])) ∨
            result = .error .calendarEnd ∧ ∃ t ∈ tasks, t.created.next? = none)) := by
  intro h dir names tasks
  refine ⟨fun vcs => outcome_openIn_unpointed vcs hs.outcome_ensureDirectories,
    fun vcs hpass => ?_, fun hdir hall => ⟨fun limit => ?_, fun name description hblank hnew => ?_⟩⟩
  · obtain ⟨hleads, hpointer⟩ := hs.prepared
    have hslot : IsSlot (prepared h d).files d := fun e he => hs.slot e (hpointer ▸ he)
    obtain ⟨current, after, ho, hcurrent⟩ := outcome_restore_of_passes hleads hslot rfl hpass
    refine ⟨current, after, ?_, hcurrent⟩
    rw [openIn, outcome_bind_of_ok hs.outcome_ensureDirectories]
    exact outcome_bind_of_ok ho
  · have hleads := hs.leads.child hdir
    have hrecent := outcome_recent_of_readings (l := desk.ledger) (hl ▸ hleads) (hl ▸ hall) limit
    rw [hl] at hrecent
    exact hrecent
  · exact exists_outcome_start hs hdir hl hp hids hall hblank hnew description

/-! ## A cluttered state directory -/

/-- A host with files under these names among the records of its state directory, and a pointer. -/
def cluttered (records : List (Text × Bytes)) (pointer : Text) : Host :=
  let h := withTasks linkedStateHost [['h'], ['s']]
  let put (fs : FileSystem) (r : Text × Bytes) :=
    fs.put [['h'], ['s'], tasksName, r.1] (.file r.2)
  { h with
    files := (records.foldl put h.files).put [['h'], ['s'], pointerName] (.file (Utf8.encode pointer)) }

/-- A file that is not UTF-8, one that is no document, one without the members of a record, and the
record of a task. -/
def clutter : List (Text × Bytes) :=
  [("b.json", [0xff]), ("c.json", Utf8.encode ['{']), ("d.json", Utf8.encode ['{', '}']),
    ("a1.json", recordBytes { shiftedTask with operations := [] })]

theorem stateDirectory_clutter : StateDirectory (cluttered clutter ['g', '\n']).files
    (cluttered clutter ['g', '\n']).cwd (FilePath.ofText ['l']) [['h'], ['s']] := by
  have htasks : (cluttered clutter ['g', '\n']).files.entryAt [['h'], ['s'], tasksName] =
      some .directory := by decide +kernel
  have hpointer : (cluttered clutter ['g', '\n']).files.entryAt [['h'], ['s'], pointerName] =
      some (.file (Utf8.encode ['g', '\n'])) := by decide +kernel
  have hlinks : ∀ x ∈ (cluttered clutter ['g', '\n']).files.entries, x.1 = [['l']] ∨
      x.2 ∈ Entry.directory :: .file (Utf8.encode ['g', '\n']) :: clutter.map fun r => .file r.2 := by
    decide +kernel
  refine ⟨⟨FilePath.isProper_ofText (by decide), by decide +kernel, by decide +kernel⟩, fun e he => ?_,
    fun name target he => ?_, fun e he => ?_⟩
  · exact Option.some.inj (he.symm.trans htasks)
  · rcases hlinks _ ((entryAt_eq_some_iff (by simp)).1 he) with h | h
    · simp at h
    · simp [clutter] at h
  · exact ⟨_, Option.some.inj (he.symm.trans hpointer)⟩

/-- The pointer is cleared, one task is listed and three warnings are shown, and a task is started. -/
theorem unreadable_skipped_clutter :
    let h := cluttered clutter ['g', '\n']
    let state := FilePath.ofText ['l']
    let l := fresh state (.noting [] [])
    let tasks := readable h (state.child tasksName) (recordNames h.files [['h'], ['s'], tasksName])
    let told := warnings h (state.child tasksName) (recordNames h.files [['h'], ['s'], tasksName])
    (∃ after, outcome (openIn (state.child tasksName) l.vcs l.pointer) h = (.ok l, after) ∧
      after.files.entryAt [['h'], ['s'], pointerName] = none) ∧
    tasks.map Task.id = [['a', '1']] ∧ told.length = 3 ∧
    (∀ limit, outcome (l.recent limit) h = (.ok (upTo limit (newestFirst tasks)), h.told told)) ∧
    ∃ t after, outcome (start ['N'] .null) ⟨h, l⟩ = (.ok t, after) ∧ t.name = .text ['N'] := by
  intro h state l tasks told
  have hids : ∀ id ∈ h.ids.given, id.all fun c => hexDigits.contains c := by decide
  have hmade : prepared h [['h'], ['s']] = h := if_pos (by decide +kernel)
  have hfile : (outcome (Action.isFile (l.recordPath ['g']).text) h).1.toOption = some false := by
    decide +kernel
  have hunknown : ∀ result, (outcome (l.find ['g']) h).1 = result →
      ∃ id, result = .error (.unknownTask id) := by
    rintro result rfl
    refine ⟨['g'], ?_⟩
    rw [find, outcome_bind]
    rcases ho : outcome (Action.isFile (l.recordPath ['g']).text) h with ⟨f | there, k⟩
    · rw [ho] at hfile
      cases hfile
    · rw [ho] at hfile
      obtain rfl : there = false := Option.some.inj hfile
      rfl
  have hbytes : ∀ bytes, h.files.entryAt [['h'], ['s'], pointerName] = some (.file bytes) →
      Utf8.decodeWith .strict bytes = .ok ['g', '\n'] := by
    have he : h.files.entryAt [['h'], ['s'], pointerName] =
        some (.file (Utf8.encode ['g', '\n'])) := by decide +kernel
    intro bytes hb
    obtain rfl : Utf8.encode ['g', '\n'] = bytes := by simpa [he] using hb
    decide +kernel
  have hpass : PointerPasses h l [['h'], ['s']] := by
    intro bytes hb
    refine ⟨['g', '\n'], hbytes bytes hb, fun f hf => ?_⟩
    obtain ⟨id, hid⟩ := hunknown _ hf
    exact ⟨id, Except.error.inj hid⟩
  obtain ⟨-, hopen, hrest⟩ := unreadable_skipped ⟨h, l⟩ stateDirectory_clutter rfl
    (fun p hp => (Option.some.inj hp).symm) (fun id hid c hc => by
      simpa using List.all_eq_true.1 (hids id hid) c hc)
  rw [hmade] at hopen
  obtain ⟨current, after, ho, hcurrent, hcleared⟩ := hopen l.vcs hpass
  obtain rfl : current = none := by
    rcases current with _ | t
    · rfl
    · obtain ⟨bytes, text, hb, htext, hf⟩ := (hcurrent t).1 rfl
      obtain rfl := Except.ok.inj ((hbytes bytes hb).symm.trans htext)
      obtain ⟨id, hid⟩ := hunknown _ hf
      cases hid
  obtain ⟨hall, hid, hthree, hother⟩ :
      (∀ n ∈ recordNames h.files [['h'], ['s'], tasksName],
        blocks (reading h.files h.cwd ((state.child tasksName).child n)) = false) ∧
      tasks.map Task.id = [['a', '1']] ∧ told.length = 3 ∧
      ∀ t ∈ tasks, isNamed ['N'] t = false ∧ t.created.next?.isSome := by decide +kernel
  obtain ⟨hrecent, hstart⟩ := hrest (by decide +kernel) hall
  obtain ⟨result, after', ho', hresult⟩ := hstart ['N'] .null (by decide) fun t ht => (hother t ht).1
  refine ⟨⟨after, ho, hcleared rfl⟩, hid, hthree, hrecent, ?_⟩
  rcases hresult with ⟨t, rfl, hname, -⟩ | ⟨-, t, ht, hend⟩
  · exact ⟨t, after', ho', hname⟩
  · have hsome := (hother t ht).2
    rw [hend] at hsome
    cases hsome

/-- **A record that is an empty list blocks** the listing and starting of tasks, and a pointer to a
record that cannot be read blocks the opening of the ledger. -/
theorem listing_blocked_emptyList :
    let state := FilePath.ofText ['l']
    let listing := cluttered [("b.json", Utf8.encode ['[', ']'])] ['g', '\n']
    let pointing := cluttered [("c.json", Utf8.encode ['{'])] ['c', '\n']
    (outcome ((fresh state (.noting [] [])).recent 0) listing).1.isOk = false ∧
      (outcome (start ['N'] .null) ⟨listing, fresh state (.noting [] [])⟩).1.isOk = false ∧
      (outcome (openIn (state.child tasksName) (.noting [] []) (some (state.child pointerName)))
        pointing).1.isOk = false := by
  decide +kernel

end Ledger

end ReplyLedger
