import ReplyLedger.CommandLine.Program
import ReplyLedger.Proofs.Applier.Interruptions
import ReplyLedger.Proofs.Ledger.Account

/-!
# Applying a reply on the command line

Before the batch of its reply, and after the batch has been recorded, `apply` leaves the files and
the ledger alone (`spares_prepare`, `spares_showReport`). So it records exactly the operations that it
has carried out, however it ends, if its batch comes to the end (`apply_records`). A batch that is
broken off breaks off the command, and nothing is recorded; `apply_unrecorded` is a run in which an
operation has been carried out by then. How the terminal puts its questions does not matter.
-/

namespace ReplyLedger.CommandLine

open Ledger Json

/-! ## Steps that spare the files -/

section Steps

variable {α β : Type}

/-- A step that leaves the files alone, whatever it comes to. -/
def SparesHost (step : Step Host α) : Prop := ∀ h : Host, h.Spared (outcome step h).2

/-- A step that leaves the files and the ledger alone, whatever it comes to. -/
def SparesDesk (step : Step Desk α) : Prop :=
  ∀ desk, ∃ host, desk.host.Spared host ∧ (outcome step desk).2 = { desk with host }

theorem outcome_ofAction (act : Action α) (h : Host) :
    outcome (ofAction act) h = ((outcome act h).1.mapError .failure, (outcome act h).2) := rfl

theorem outcome_onHost (step : Step Host α) (desk : Desk) : outcome (onHost step) desk =
    ((outcome step desk.host).1, { desk with host := (outcome step desk.host).2 }) := rfl

theorem outcome_ofLedger (act : LedgerAction α) (desk : Desk) :
    outcome (ofLedger act) desk =
      ((outcome act desk).1.mapError .failure, (outcome act desk).2) := rfl

theorem sparesHost_ofAction {act : Action α} (ha : Action.Spares act) :
    SparesHost (ofAction act) := ha

theorem SparesHost.bind {step : Step Host α} {f : α → Step Host β} (hs : SparesHost step)
    (hf : ∀ a, SparesHost (f a)) : SparesHost (step >>= f) := by
  intro h
  have hh := hs h
  rw [outcome_bind]
  rcases ho : outcome step h with ⟨_ | a, h'⟩
  · rw [ho] at hh
    exact hh
  · rw [ho] at hh
    exact hh.trans (hf a h')

theorem sparesDesk_onHost {step : Step Host α} (hs : SparesHost step) : SparesDesk (onHost step) :=
  fun desk => ⟨_, hs desk.host, rfl⟩

theorem sparesDesk_ofLedger {act : Action α} (ha : Action.Spares act) :
    SparesDesk (ofLedger act) := fun desk => ⟨_, ha desk.host, rfl⟩

theorem sparesDesk_pure (a : α) : SparesDesk (pure a) := fun desk => ⟨_, .refl desk.host, rfl⟩

theorem SparesDesk.bind {step : Step Desk α} {f : α → Step Desk β} (hs : SparesDesk step)
    (hf : ∀ a, SparesDesk (f a)) : SparesDesk (step >>= f) := by
  intro desk
  obtain ⟨host, hh, he⟩ := hs desk
  rw [outcome_bind]
  rcases ho : outcome step desk with ⟨_ | a, after⟩
  · rw [ho] at he
    exact ⟨host, hh, he⟩
  · rw [ho] at he
    obtain rfl : after = { desk with host } := he
    obtain ⟨host', hh', he'⟩ := hf a { desk with host }
    exact ⟨host', hh.trans hh', he'⟩

theorem sparesDesk_forM (items : List β) {f : β → Step Desk PUnit} (hf : ∀ b, SparesDesk (f b)) :
    SparesDesk (items.forM f) := by
  induction items with
  | nil => exact sparesDesk_pure _
  | cons item items ih => exact (hf item).bind fun _ => ih

theorem sparesDesk_say (level : Level) (text : Text) : SparesDesk (say level text) :=
  sparesDesk_ofLedger (Action.spares_say level text)

end Steps

/-! ## Finding the places -/

section Places

open ReplyLedger.Action

theorem looks_currentLocation : Looks currentLocation := by
  refine looks_get.bind fun h => ?_
  split
  · exact looks_pure _
  · exact looks_fail _

theorem looks_expandHome (p : FilePath) : Looks (Workspace.expandHome p) := by
  unfold Workspace.expandHome
  split
  · split
    · exact looks_fail _
    · refine looks_get.bind fun h => ?_
      split
      · exact looks_pure _
      · exact looks_fail _
  · exact looks_pure _

theorem looks_absolutePath (p : FilePath) : Looks (Workspace.absolutePath p) := by
  unfold Workspace.absolutePath
  split
  · exact looks_pure _
  · exact looks_currentLocation.bind fun _ => looks_pure _

theorem looks_rootedSegments (p : FilePath) : Looks (Workspace.rootedSegments p) := by
  refine looks_get.bind fun h => ?_
  split
  · split
    · split
      · exact looks_pure _
      · exact looks_fail _
    · exact looks_fail _
  · exact (looks_absolutePath p).bind fun _ => looks_pure _

theorem looks_resolvePath (p : FilePath) : Looks (Workspace.resolvePath p) := by
  refine (looks_rootedSegments p).bind fun segments => looks_get.bind fun h => ?_
  split
  · exact looks_pure _
  · exact looks_fail _
  · exact looks_fail _

theorem spares_repositoryRoot (directory : Option Text) :
    Spares (Workspace.repositoryRoot directory) := by
  have hrun : Spares (some <$> Git.run ["rev-parse".toList, "--show-toplevel".toList] directory) := by
    rw [map_eq_pure_bind]
    exact (spares_run _ directory).bind fun _ => spares_pure _
  refine (hrun.rescue fun _ => spares_pure _).bind fun found => ?_
  split
  · exact spares_pure _
  · split
    · exact spares_pure _
    · exact (looks_currentLocation.bind fun _ => looks_pure _).spares

theorem spares_ofPath (given : Option FilePath) : Spares (Workspace.ofPath given) := by
  have hend (path : FilePath) : Looks (do
      if ← isDirectory path.text then return (⟨(← Workspace.resolvePath path).names⟩ : Workspace)
      else fail (.noWorkspace path.text)) := by
    refine (looks_isDirectory _).bind fun there => ?_
    split
    · exact (looks_resolvePath path).bind fun _ => looks_pure _
    · exact looks_fail _
  cases given with
  | some p => exact (looks_expandHome p).spares.bind fun path => (hend path).spares
  | none => exact (spares_repositoryRoot none).bind fun path => (hend path).spares

theorem spares_statePath (s : Settings) : Spares s.statePath := by
  refine (looks_expandHome _).spares.bind fun p => ?_
  split
  · exact spares_pure _
  · exact (spares_ofPath _).bind fun _ => spares_pure _

theorem spares_journalPath (s : Settings) : Spares s.journalPath :=
  (spares_statePath s).bind fun _ => spares_pure _

end Places

/-! ## The parts of the command -/

namespace App

variable (app : App) (source : Text) (yes : Bool)

/-- What `apply` does before it applies the text that it has read. -/
def prepare : Step Desk (Applier × Text) := do
  let text ← onHost (readSource source)
  let journal : Journal := ⟨← ofLedger app.settings.journalPath⟩
  let workspace ← ofLedger (Workspace.ofPath (some (FilePath.ofNames app.workspace.root)))
  let confirm : Confirm := fun path => app.terminal.confirmation yes (overwriteQuestion path)
  let nesting := app.terminal.nesting
  say .info "Applying operations…"
  return ({ workspace, confirm, journal, nesting }, text)

/-- What `apply` shows of what has become of the text. -/
def showReport (r : ReplyReport) : Step Desk Unit := do
  if r.operations.isEmpty then say .warn "No operation blocks found"
  else
    r.report.failures.forM fun f => say .warn (f.operation.kind.word ++ ": " ++ f.reason)
    if r.report.failures.isEmpty then
      say .success ("Applied " ++ Text.ofNat r.report.applied.length ++ " operation(s)")
    else
      let journalPath ← ofLedger app.settings.journalPath
      say .warn (r.report.summary ++ ": " ++ journalPath.text)

theorem apply_eq : app.apply source yes =
    app.prepare source yes >>= fun (a, text) => ofLedger (applyReply a text) >>= app.showReport := by
  simp only [apply, prepare, bind_assoc, pure_bind]
  rfl

theorem sparesHost_readSource : SparesHost (readSource source) := by
  unfold readSource
  split
  · exact fun _ => ⟨rfl, rfl, List.Subset.refl _, List.Subset.refl _, rfl⟩
  · refine (sparesHost_ofAction (Action.looks_isFile _).spares).bind fun there => ?_
    split
    · exact sparesHost_ofAction (Action.looks_readText _).spares
    · exact fun h => .refl h

/-- **Nothing is done before the batch** but to look, to ask the version-control program and to
show. -/
theorem spares_prepare : SparesDesk (app.prepare source yes) := by
  refine (sparesDesk_onHost (sparesHost_readSource source)).bind fun text => ?_
  refine (sparesDesk_ofLedger (spares_journalPath _)).bind fun path => ?_
  refine (sparesDesk_ofLedger (spares_ofPath _)).bind fun workspace => ?_
  exact (sparesDesk_say _ _).bind fun _ => sparesDesk_pure _

theorem spares_showReport (r : ReplyReport) : SparesDesk (app.showReport r) := by
  unfold showReport
  split
  · exact sparesDesk_say _ _
  · refine (sparesDesk_forM _ fun f => sparesDesk_say _ _).bind fun _ => ?_
    split
    · exact sparesDesk_say _ _
    · exact (sparesDesk_ofLedger (spares_journalPath _)).bind fun _ => sparesDesk_say _ _

end App

/-! ## Batches -/

/-- A batch that is about to begin: who carries it out, its operations, and the host. -/
structure Batch where
  applier : Applier
  operations : List (Operation Text)
  start : Host

namespace Batch

/-- What the batch comes to. -/
def outcome (b : Batch) : Except Failure BatchReport × Host :=
  ReplyLedger.outcome (b.applier.applyAll (b.operations.map (·.map .text))) b.start

/-- The operations of the batch that are carried out, whether or not it comes to its end. -/
def carriedOut (b : Batch) : List (Operation Value) :=
  b.applier.carriedOut (b.operations.map (·.map .text)) b.start

/-- The batch is broken off by a failure. -/
def IsBrokenOffBy (b : Batch) (f : Failure) : Prop := b.outcome.1 = .error f

/-- **A batch is broken off by one of its operations**, when those before it have come to their ends.
What has been carried out by then is what these report, and the operation itself if only its note is
missing. -/
theorem exists_breaksOff {b : Batch} {f : Failure} (h : b.IsBrokenOffBy f) :
    ∃ earlier op later r k, b.operations = earlier ++ op :: later ∧
      ReplyLedger.outcome (b.applier.applyAll (earlier.map (·.map .text))) b.start = (.ok r, k) ∧
      b.applier.BreaksOff (op.map .text) k f ∧
      b.carriedOut =
        r.applied ++ if b.applier.isCarriedOut (op.map .text) k then [op.map .text] else [] :=
  Applier.exists_breaksOff (Prod.ext h rfl)

end Batch

namespace App

variable {app : App} {source : Text} {yes : Bool} {desk : Desk} {t : Task} {record : Location}
variable {bytes : Bytes} {b : Batch}

/-- The batch that `apply` begins, unless it ends before that. -/
def batch? (app : App) (source : Text) (yes : Bool) (desk : Desk) : Option Batch :=
  match outcome (app.prepare source yes) desk with
  | (.ok (a, text), ready) =>
    some ⟨a, Reply.operations text, (outcome (readReply text) ready.host).2⟩
  | (.error _, _) => none

/-- A command that ends before its batch has changed no file. -/
theorem files_apply_of_none (hb : app.batch? source yes desk = none) :
    (outcome (app.apply source yes) desk).2.host.files = desk.host.files := by
  obtain ⟨host, hh, he⟩ := app.spares_prepare source yes desk
  rw [batch?] at hb
  rw [apply_eq, outcome_bind]
  rcases ho : outcome (app.prepare source yes) desk with ⟨stop | ⟨a, text⟩, ready⟩
  · rw [ho] at he
    obtain rfl : ready = { desk with host } := he
    exact hh.files
  · rw [ho] at hb
    exact nomatch hb

/-- A batch is that of the operations of a text that has been read. -/
theorem exists_text_of_batch? (hb : app.batch? source yes desk = some b) : ∃ text host,
    outcome (app.prepare source yes) desk = (.ok (b.applier, text), { desk with host }) ∧
      outcome (readReply text) host = (.ok (b.operations.map (·.map .text)), b.start) := by
  obtain ⟨host, -, he⟩ := app.spares_prepare source yes desk
  rw [batch?] at hb
  rcases hp : outcome (app.prepare source yes) desk with ⟨stop | ⟨a, text⟩, ready⟩
  · rw [hp] at hb
    exact nomatch hb
  · rw [hp] at hb he
    obtain rfl : ready = { desk with host } := he
    obtain rfl := Option.some.inj hb
    obtain ⟨console, -, hread⟩ := outcome_readReply text host
    refine ⟨text, host, rfl, ?_⟩
    rw [hread]

/-- Whoever carries out the batch asks as the terminal does, nests calls as deep, and keeps a
journal. -/
theorem exists_applier_of_batch? (hb : app.batch? source yes desk = some b) :
    ∃ workspace journal, b.applier =
      ⟨workspace, some fun path => app.terminal.confirmation yes (overwriteQuestion path),
        some journal, app.terminal.nesting⟩ := by
  obtain ⟨text, host, hp, -⟩ := exists_text_of_batch? hb
  obtain ⟨_, _, -, hread⟩ := exists_of_outcome_bind hp
  obtain ⟨path, _, -, hjournal⟩ := exists_of_outcome_bind hread
  obtain ⟨workspace, _, -, hplace⟩ := exists_of_outcome_bind hjournal
  obtain ⟨_, _, -, hend⟩ := exists_of_outcome_bind hplace
  exact ⟨workspace, ⟨path⟩, (congrArg Prod.fst (Except.ok.inj (congrArg Prod.fst hend))).symm⟩

/-- With the answer yes to all questions, every question of the batch is answered. -/
theorem answers_of_batch? (hb : app.batch? source true desk = some b) : b.applier.Answers := by
  obtain ⟨workspace, journal, ha⟩ := exists_applier_of_batch? hb
  intro confirm hconfirm question console
  rw [ha] at hconfirm
  obtain rfl := Option.some.inj hconfirm
  exact Option.some_ne_none true

/-- **What has been carried out is recorded when the batch comes to its end.** -/
theorem entryAt_apply_of_batch {r : BatchReport} (hc : desk.ledger.current = some t)
    (hb : app.batch? source yes desk = some b) (ho : b.outcome.1 = .ok r)
    (hn : b.outcome.2.NamesFile (desk.ledger.recordPath t.id) record bytes) :
    (outcome (app.apply source yes) desk).2.host.files.entryAt record =
      some (.file (recordedBytes t bytes b.carriedOut)) := by
  obtain ⟨text, host, hp, hread⟩ := exists_text_of_batch? hb
  have hbatch : ReplyLedger.outcome (b.applier.applyAll (b.operations.map (·.map .text))) b.start =
      (.ok r, b.outcome.2) := Prod.ext ho rfl
  have hcurrent : ({ desk with host } : Desk).ledger.current = some t := hc
  obtain ⟨host', hreply, hwith⟩ :=
    applyReply_of_batch hcurrent hread hbatch hn.writes hn.entryAt
  rw [Applier.applied_eq_carriedOut hbatch] at hwith
  have hstep : outcome (ofLedger (applyReply b.applier text)) { desk with host } =
      (.ok ⟨b.operations.map (·.map .text), r⟩,
        ⟨host', { desk.ledger with current := some (t.record r.applied) }⟩) := by
    rw [outcome_ofLedger, hreply]
    rfl
  rw [apply_eq, outcome_bind_of_ok hp]
  dsimp only
  rw [outcome_bind_of_ok hstep]
  obtain ⟨host'', hh, he⟩ := app.spares_showReport ⟨b.operations.map (·.map .text), r⟩
    ⟨host', { desk.ledger with current := some (t.record r.applied) }⟩
  rw [he, hh.files]
  exact (hwith.entryAt record).trans (if_pos rfl)

/-- A batch that is broken off breaks off the command, and nothing is recorded. -/
theorem apply_of_brokenOff {f : Failure} (hc : desk.ledger.current = some t)
    (hb : app.batch? source yes desk = some b) (ho : b.IsBrokenOffBy f) :
    (outcome (app.apply source yes) desk).1 = .error (.failure f) ∧
      (outcome (app.apply source yes) desk).2.host = b.outcome.2 := by
  obtain ⟨text, host, hp, hread⟩ := exists_text_of_batch? hb
  have hbatch : ReplyLedger.outcome (b.applier.applyAll (b.operations.map (·.map .text))) b.start =
      (.error f, b.outcome.2) := Prod.ext ho rfl
  have hcurrent : ({ desk with host } : Desk).ledger.current = some t := hc
  have hreply := applyReply_of_brokenOff hcurrent hread hbatch
  rw [apply_eq, outcome_bind_of_ok hp, outcome_bind, outcome_ofLedger, hreply]
  exact ⟨rfl, rfl⟩

end App

/-! ## Runs -/

variable {terminal : Terminal} {settings : Settings} {before opened : Host} {app : App}
variable {ledger : Ledger}

/-- After the workspace and its ledger have been opened, the run of `apply` is that on the desk. -/
theorem outcome_runCommand_apply
    (hopen : outcome (openDesk terminal settings) before = (.ok (app, ledger), opened))
    (source : Text) (yes : Bool) :
    outcome (runCommand terminal settings (.apply source yes)) before =
      ((outcome (app.apply source yes) ⟨opened, ledger⟩).1,
        (outcome (app.apply source yes) ⟨opened, ledger⟩).2.host) := by
  have hstep : outcome (ofAction (openDesk terminal settings)) before =
      (.ok (app, ledger), opened) := by
    rw [outcome_ofAction, hopen]
    rfl
  change outcome (ofAction (openDesk terminal settings) >>= _) before = _
  rw [outcome_bind_of_ok hstep]
  rcases hrun : outcome (app.apply source yes) ⟨opened, ledger⟩ with ⟨result, desk⟩
  have hdesk : app.run (.apply source yes) ⟨opened, ledger⟩ = (result, desk) := hrun
  dsimp only
  rw [outcome_bind_of_ok (outcome_get opened), hdesk]
  cases result <;> rfl

/-- A ledger that cannot be opened ends the run. -/
theorem outcome_runCommand_apply_of_error {f : Failure}
    (hopen : outcome (openDesk terminal settings) before = (.error f, opened)) (source : Text)
    (yes : Bool) :
    outcome (runCommand terminal settings (.apply source yes)) before =
      (.error (.failure f), opened) := by
  have hstep : outcome (ofAction (openDesk terminal settings)) before =
      (.error (.failure f), opened) := by
    rw [outcome_ofAction, hopen]
    rfl
  change outcome (ofAction (openDesk terminal settings) >>= _) before = _
  rw [outcome_bind_of_error hstep]

/-- What is opened on a terminal works on it. -/
theorem terminal_of_openDesk
    (hopen : outcome (openDesk terminal settings) before = (.ok (app, ledger), opened)) :
    app.terminal = terminal := by
  obtain ⟨_, _, -, htasks⟩ := exists_of_outcome_bind hopen
  obtain ⟨_, _, -, hpointer⟩ := exists_of_outcome_bind htasks
  obtain ⟨_, _, -, hledger⟩ := exists_of_outcome_bind hpointer
  obtain ⟨_, _, -, hend⟩ := exists_of_outcome_bind hledger
  have happ := congrArg Prod.fst (Except.ok.inj (congrArg Prod.fst hend))
  exact (congrArg App.terminal happ).symm

variable {source : Text} {yes : Bool} {t : Task} {record : Location} {bytes : Bytes}

/-- **The command `apply` records the operations that it has carried out**, in order, whether it ends
normally or with an error, as long as the operations leave the record of the current task alone and
the batch is not broken off. A batch that is broken off, by a question that meets the end of the
input, by a machine that cannot nest calls as deep as an operation takes, or by a note that cannot be
taken, breaks off the command, and the record stays as it was, whatever has been carried out by then
(`Batch.exists_breaksOff`). -/
theorem apply_records
    (hopen : outcome (openDesk terminal settings) before = (.ok (app, ledger), opened))
    (hc : ledger.current = some t) (hs : opened.files.entryAt record = some (.file bytes))
    (hkept : ∀ b, app.batch? source yes ⟨opened, ledger⟩ = some b →
      b.outcome.2.NamesFile (ledger.recordPath t.id) record bytes) :
    let batch := app.batch? source yes ⟨opened, ledger⟩
    let done := batch.elim [] Batch.carriedOut
    let run := outcome (runCommand terminal settings (.apply source yes)) before
    ((∀ b f, batch = some b → ¬ b.IsBrokenOffBy f) →
      run.2.files.entryAt record = some (.file (recordedBytes t bytes done)) ∧
        (t.record done).operations = t.operations ++ done ∧
        (done ≠ [] → (t.record done).status = .applied)) ∧
    ∀ b f, batch = some b → b.IsBrokenOffBy f →
      run.1 = .error (.failure f) ∧ run.2.files.entryAt record = some (.file bytes) ∧
        (f = .interrupted ∧ yes = false ∨ f = .tooDeep ∧ terminal.nesting ≠ none ∨
          ∃ journal entry h, b.applier.journal = some journal ∧
            (outcome (journal.write entry) h).1 = .error f) := by
  intro batch done run
  have hrun : run = _ := outcome_runCommand_apply hopen source yes
  refine ⟨fun hends => ⟨?_, Task.operations_record t done, fun hne => ?_⟩, fun b f hb hbroken => ?_⟩
  · rw [hrun]
    rcases hb : batch with _ | b
    · rw [show done = [] from by simp only [done, hb, Option.elim], recordedBytes_nil]
      exact (congrArg (·.entryAt record) (App.files_apply_of_none hb)).trans hs
    · rcases ho : b.outcome.1 with f | r
      · exact absurd ho (hends b f hb)
      · rw [show done = b.carriedOut from by simp only [done, hb, Option.elim]]
        exact App.entryAt_apply_of_batch hc hb ho (hkept b hb)
  · rw [Task.record, if_neg (by simpa using hne)]
  · obtain ⟨hresult, hhost⟩ := App.apply_of_brokenOff hc hb hbroken
    rw [hrun]
    refine ⟨hresult, ?_, ?_⟩
    · dsimp only
      rw [hhost]
      exact (hkept b hb).entryAt
    · obtain ⟨earlier, op, later, r, k, -, -, hbreaks, -⟩ := b.exists_breaksOff hbroken
      cases hbreaks with
      | question ho hn =>
        refine .inl ⟨rfl, ?_⟩
        rw [← Bool.not_eq_true]
        rintro rfl
        exact hn (App.answers_of_batch? hb)
      | machine ho hn =>
        obtain ⟨workspace, journal, ha⟩ := App.exists_applier_of_batch? hb
        rw [ha, terminal_of_openDesk hopen] at hn
        exact .inr (.inl ⟨rfl, hn⟩)
      | note hj hw => exact .inr (.inr ⟨_, _, _, hj, hw⟩)

/-! ### A reply on the input -/

/-- The workspace `/w` and the state directory `/s`. -/
def promptSettings : Settings := { workspace := ['/', 'w'], stateDirectory := ['/', 's'] }

/-- A terminal whose input has come to its end: a question is shown, and nothing answers it. -/
def endedTerminal : Terminal where
  prompt := fun question => do
    modify fun c => c.emit (.prompt question)
    return none

/-- The record of the task in the state directory. -/
def promptRecord : Location := [['s'], tasksName] ++ [recordName plainTask.id]

/-- A workspace with a file, and a task without operations. The reply on the input makes a file, and
then the one that is there. -/
def promptHost : Host :=
  let files := (((((FileSystem.empty.put [['w']] .directory).put [['w'], ['e']] (.file [0])).put
    [['s']] .directory).put [['s'], tasksName] .directory).put
      promptRecord (.file (recordBytes plainTask))).put
        [['s'], pointerName] (.file (Utf8.encode (pointerLine plainTask)))
  let input := "<<<CREATE: n>>>1<<<END>>><<<CREATE: e>>>2<<<END>>>".toList
  { Host.ofFiles files with console := { input } }

/-- Whether a check holds of what is opened and of the batch that is begun then. -/
def begins (yes : Bool) (check : Ledger → Host → Batch → Bool) : Bool :=
  match outcome (openDesk endedTerminal promptSettings) promptHost with
  | (.ok (app, ledger), opened) =>
    (app.batch? inputSource yes ⟨opened, ledger⟩).any (check ledger opened)
  | (.error _, _) => false

theorem exists_of_begins {check : Ledger → Host → Batch → Bool} (h : begins yes check) :
    ∃ app ledger opened b,
      outcome (openDesk endedTerminal promptSettings) promptHost = (.ok (app, ledger), opened) ∧
        app.batch? inputSource yes ⟨opened, ledger⟩ = some b ∧ check ledger opened b := by
  rw [begins] at h
  rcases ho : outcome (openDesk endedTerminal promptSettings) promptHost with
    ⟨_ | ⟨app, ledger⟩, opened⟩
  · rw [ho] at h
    exact nomatch h
  · rw [ho] at h
    dsimp only at h
    rcases hb : app.batch? inputSource yes ⟨opened, ledger⟩ with _ | b
    · rw [hb] at h
      exact nomatch h
    · rw [hb] at h
      exact ⟨app, ledger, opened, b, rfl, hb, h⟩

/-- With the answer yes to all questions, both operations are carried out and recorded. -/
theorem apply_records_promptHost : ∃ app ledger opened t b,
    outcome (openDesk endedTerminal promptSettings) promptHost = (.ok (app, ledger), opened) ∧
      ledger.current = some t ∧ app.batch? inputSource true ⟨opened, ledger⟩ = some b ∧
      b.carriedOut.map Operation.kind = [.create, .create] ∧
      (outcome (runCommand endedTerminal promptSettings (.apply inputSource true))
        promptHost).2.files.entryAt promptRecord = some (.file (recordedBytes t (recordBytes plainTask) b.carriedOut)) := by
  have hbegins : begins true fun ledger opened b =>
      ledger.tasksDirectory = .ofNames [['s'], tasksName] &&
      ledger.current.map Task.id = some plainTask.id &&
      opened.files.entryAt promptRecord = some (.file (recordBytes plainTask)) &&
      b.outcome.1.toOption.isSome &&
      b.outcome.2.files.IsDirectory [['s'], tasksName] &&
      b.outcome.2.files.entryAt promptRecord = some (.file (recordBytes plainTask)) &&
      b.carriedOut.map Operation.kind = [.create, .create] := by
    decide +kernel
  obtain ⟨app, ledger, opened, b, hopen, hb, hcheck⟩ := exists_of_begins hbegins
  simp only [Bool.and_eq_true, decide_eq_true_eq] at hcheck
  obtain ⟨⟨⟨⟨⟨⟨hdirectory, hid⟩, hs⟩, hends⟩, hd⟩, he⟩, hkinds⟩ := hcheck
  obtain ⟨t, hc, ht⟩ := Option.map_eq_some_iff.1 hid
  have hkept (b' : Batch) (hb' : app.batch? inputSource true ⟨opened, ledger⟩ = some b') :
      b'.outcome.2.NamesFile (ledger.recordPath t.id) promptRecord (recordBytes plainTask) := by
    obtain rfl := Option.some.inj (hb.symm.trans hb')
    rw [ht, recordPath_eq ledger (by decide), hdirectory]
    exact .of_names hd he
  refine ⟨app, ledger, opened, t, b, hopen, hc, hb, hkinds, ?_⟩
  have hrecords := (apply_records hopen hc hs hkept).1 fun b' f hb' hbroken => by
    obtain rfl := Option.some.inj (hb.symm.trans hb')
    rw [Batch.IsBrokenOffBy] at hbroken
    rw [hbroken] at hends
    exact nomatch hends
  rw [hb] at hrecords
  exact hrecords.1

/-- **An operation is carried out and not recorded**: the file is made, and then the question about
the other meets the end of the input, which the reply has been read from. -/
theorem apply_unrecorded : ∃ app ledger opened t b,
    outcome (openDesk endedTerminal promptSettings) promptHost = (.ok (app, ledger), opened) ∧
      ledger.current = some t ∧ app.batch? inputSource false ⟨opened, ledger⟩ = some b ∧
      b.carriedOut.map Operation.kind = [.create] ∧
      let after :=
        (outcome (runCommand endedTerminal promptSettings (.apply inputSource false)) promptHost).2
      after.files.fileAt [['w'], ['n']] = some (Utf8.encode ['1']) ∧
        after.files.entryAt promptRecord = some (.file (recordBytes plainTask)) ∧
        after.files.entryAt promptRecord ≠
          some (.file (recordedBytes t (recordBytes plainTask) b.carriedOut)) := by
  have hbegins : begins false fun ledger _ b => ledger.current.any fun t =>
      b.carriedOut.map Operation.kind = [.create] &&
      recordedBytes t (recordBytes plainTask) b.carriedOut ≠ recordBytes plainTask := by
    decide +kernel
  obtain ⟨app, ledger, opened, b, hopen, hb, hcheck⟩ := exists_of_begins hbegins
  rcases hc : ledger.current with _ | t
  · rw [hc] at hcheck
    exact nomatch hcheck
  rw [hc] at hcheck
  obtain ⟨hkinds, hchanged⟩ : b.carriedOut.map Operation.kind = [.create] ∧
      recordedBytes t (recordBytes plainTask) b.carriedOut ≠ recordBytes plainTask := by
    simpa only [Option.any_some, Bool.and_eq_true, decide_eq_true_eq] using hcheck
  have hmade : (outcome (runCommand endedTerminal promptSettings (.apply inputSource false))
      promptHost).2.files.fileAt [['w'], ['n']] = some (Utf8.encode ['1']) := by
    decide +kernel
  have hrecord : (outcome (runCommand endedTerminal promptSettings (.apply inputSource false))
      promptHost).2.files.entryAt promptRecord = some (.file (recordBytes plainTask)) := by
    decide +kernel
  refine ⟨app, ledger, opened, t, b, hopen, hc, hb, hkinds, hmade, hrecord, fun h => hchanged ?_⟩
  rw [hrecord] at h
  exact (Entry.file.inj (Option.some.inj h)).symm

end ReplyLedger.CommandLine
