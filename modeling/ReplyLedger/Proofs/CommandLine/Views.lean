import ReplyLedger.Proofs.CommandLine.Apply
import ReplyLedger.Proofs.Git.Calls
import ReplyLedger.Proofs.Ledger.Views

/-!
# What the command line does not look at

The places that the settings name are found in the same way on hosts that resemble each other, and
what is opened there is the same (`heedless_openDesk`). With the answer yes to all questions, what
`apply` does with the text of a reply comes to the same, too (`App.heedless_applyText`).

If what is opened has a current task, opening it has made directories at the most
(`gains_openDesk`); if it has none, `apply` changes no file (`App.files_apply_of_no_task`).
-/

namespace ReplyLedger

open ReplyLedger.Action

variable {v : Console.View}

/-! ## Finding the places -/

theorem Git.heedless_run (arguments : List Text) (directory : Option Text) :
    Heedless v (run arguments directory) := by
  rintro h₁ h₂ ⟨c, rfl, hc⟩
  rw [outcome_run, outcome_run]
  exact ⟨rfl, c, rfl, hc⟩

theorem Action.heedless_currentLocation : Heedless v currentLocation := by
  refine heedless_get_bind (fun h => ?_) fun _ _ => rfl
  split
  · exact relates_pure _
  · exact relates_fail _

namespace Workspace

theorem heedless_expandHome (p : FilePath) : Heedless v (expandHome p) := by
  unfold expandHome
  split
  · split
    · exact relates_fail _
    · refine heedless_get_bind (fun h => ?_) fun _ _ => rfl
      split
      · exact relates_pure _
      · exact relates_fail _
  · exact relates_pure _

theorem heedless_repositoryRoot (directory : Option Text) :
    Heedless v (repositoryRoot directory) := by
  refine Relates.bind ?_ fun found => ?_
  · exact relates_rescue ((Git.heedless_run _ _).map some) fun _ => relates_pure _
  · split
    · exact relates_pure _
    · split
      · exact relates_pure _
      · exact heedless_currentLocation.bind fun _ => relates_pure _

theorem heedless_absolutePath (p : FilePath) : Heedless v (absolutePath p) := by
  unfold absolutePath
  split
  · exact relates_pure _
  · exact heedless_currentLocation.bind fun _ => relates_pure _

theorem heedless_rootedSegments (p : FilePath) : Heedless v (rootedSegments p) := by
  refine heedless_get_bind (fun h => ?_) fun _ _ => rfl
  split
  · split
    · split
      · exact relates_pure _
      · exact relates_fail _
    · exact relates_fail _
  · exact (heedless_absolutePath p).bind fun _ => relates_pure _

theorem heedless_resolvePath (p : FilePath) : Heedless v (resolvePath p) := by
  refine (heedless_rootedSegments p).bind fun segments => ?_
  refine heedless_get_bind (fun h => ?_) fun _ _ => rfl
  split
  · exact relates_pure _
  · exact relates_fail _
  · exact relates_fail _

theorem heedless_ofPath (given : Option FilePath) : Heedless v (ofPath given) := by
  have hend (path : FilePath) : Heedless v (do
      if ← isDirectory path.text then return (⟨(← resolvePath path).names⟩ : Workspace)
      else fail (.noWorkspace path.text)) := by
    refine (heedless_isDirectory _).bind fun there => ?_
    split
    · exact (heedless_resolvePath path).bind fun _ => relates_pure _
    · exact relates_fail _
  cases given with
  | some p => exact (heedless_expandHome p).bind hend
  | none => exact (heedless_repositoryRoot none).bind hend

end Workspace

namespace Settings

theorem heedless_statePath (s : Settings) : Heedless v s.statePath := by
  refine (Workspace.heedless_expandHome _).bind fun p => ?_
  split
  · exact relates_pure _
  · exact (Workspace.heedless_ofPath _).bind fun _ => relates_pure _

theorem heedless_tasksDirectory (s : Settings) : Heedless v s.tasksDirectory :=
  (heedless_statePath s).bind fun _ => relates_pure _

theorem heedless_pointerPath (s : Settings) : Heedless v s.pointerPath :=
  (heedless_statePath s).bind fun _ => relates_pure _

theorem heedless_journalPath (s : Settings) : Heedless v s.journalPath :=
  (heedless_statePath s).bind fun _ => relates_pure _

end Settings

namespace CommandLine

open Ledger Json

theorem heedless_openDesk (terminal : Terminal) (settings : Settings) :
    Heedless v (openDesk terminal settings) := by
  refine (Workspace.heedless_ofPath _).bind fun workspace => ?_
  refine (Settings.heedless_tasksDirectory settings).bind fun tasksDirectory => ?_
  refine (Settings.heedless_pointerPath settings).bind fun pointer => ?_
  exact (heedless_openIn _ _ _).bind fun _ => relates_pure _

/-! ## Steps -/

section Steps

variable {α : Type}

theorem heedless_ofAction {act : Action α} (ha : Heedless v act) :
    Relates (Host.Resembles v) (ofAction act) := by
  intro h₁ h₂ h
  obtain ⟨hresult, hhost⟩ := ha h₁ h₂ h
  exact ⟨congrArg (Except.mapError Stop.failure) hresult, hhost⟩

theorem heedless_ofLedger {act : LedgerAction α} (ha : LedgerAction.Heedless v act) :
    Relates (Desk.Resembles v) (ofLedger act) := by
  intro d₁ d₂ h
  obtain ⟨hresult, hdesk⟩ := ha d₁ d₂ h
  exact ⟨congrArg (Except.mapError Stop.failure) hresult, hdesk⟩

/-- An action that needs the host only, done in the middle of a command. -/
theorem heedless_ofHost {act : Action α} (ha : Heedless v act) :
    Relates (Desk.Resembles v) (ofLedger (liftM act)) :=
  heedless_ofLedger (LedgerAction.heedless_lift ha)

theorem heedless_say (level : Level) (text : Text) :
    Relates (Desk.Resembles v) (say level text) := heedless_ofHost (Action.heedless_say level text)

end Steps

/-! ## Opening -/

variable {terminal : Terminal} {settings : Settings} {before opened : Host} {app : App}
variable {ledger : Ledger}

/-- **Opening a ledger with a current task makes directories at the most.** -/
theorem gains_openDesk
    (hopen : outcome (openDesk terminal settings) before = (.ok (app, ledger), opened))
    (hc : ledger.current ≠ none) :
    before.files.GainsDirectories (fun _ => True) opened.files ∧ opened.cwd = before.cwd := by
  have hroot : Spares settings.root := spares_ofPath _
  have htasks : Spares settings.tasksDirectory := (spares_statePath _).bind fun _ => spares_pure _
  have hpointer : Spares settings.pointerPath := (spares_statePath _).bind fun _ => spares_pure _
  obtain ⟨workspace, h₁, ho₁, hrest⟩ := exists_of_outcome_bind hopen
  obtain ⟨tasksDirectory, h₂, ho₂, hrest⟩ := exists_of_outcome_bind hrest
  obtain ⟨pointer, h₃, ho₃, hrest⟩ := exists_of_outcome_bind hrest
  obtain ⟨l, h₄, ho₄, hend⟩ := exists_of_outcome_bind hrest
  obtain ⟨hl, rfl⟩ := Prod.mk.inj hend
  obtain ⟨rfl, rfl⟩ := Prod.mk.inj (Except.ok.inj hl)
  have hspared := ((hroot.spared ho₁).trans (htasks.spared ho₂)).trans (hpointer.spared ho₃)
  have hgains := gains_openIn ho₄ hc
  rwa [hspared.files, hspared.cwd] at hgains

/-! ## The parts of the command -/

namespace App

variable (app : App)

/-- What `apply` does with the text that it has read. -/
def applyText (yes : Bool) (text : Text) : Step Desk Unit := do
  let journal : Journal := ⟨← ofLedger app.settings.journalPath⟩
  let workspace ← ofLedger (Workspace.ofPath (some (FilePath.ofNames app.workspace.root)))
  let confirm : Confirm := fun path => app.terminal.confirmation yes (overwriteQuestion path)
  let nesting := app.terminal.nesting
  say .info "Applying operations…"
  ofLedger (applyReply { workspace, confirm, journal, nesting } text) >>= app.showReport

theorem apply_eq_bind (source : Text) (yes : Bool) :
    app.apply source yes = onHost (readSource source) >>= app.applyText yes := by
  simp only [apply_eq, prepare, bind_assoc, pure_bind]
  rfl

theorem heedless_showReport (r : ReplyReport) :
    Relates (Desk.Resembles v) (app.showReport r) := by
  unfold showReport
  split
  · exact heedless_say _ _
  · refine (Relates.forM fun f => heedless_say _ _).bind fun _ => ?_
    split
    · exact heedless_say _ _
    · exact (heedless_ofHost (Settings.heedless_journalPath _)).bind fun _ => heedless_say _ _

/-- With the answer yes to all questions, nothing is looked at that is not seen. -/
theorem heedless_applyText (text : Text) :
    Relates (Desk.Resembles v) (app.applyText true text) := by
  refine (heedless_ofHost (Settings.heedless_journalPath _)).bind fun path => ?_
  refine (heedless_ofHost (Workspace.heedless_ofPath _)).bind fun workspace => ?_
  refine (heedless_say _ _).bind fun _ => ?_
  refine Relates.bind (heedless_ofLedger (heedless_applyReply ?_ text)) app.heedless_showReport
  rintro confirm ⟨⟩ question c₁ c₂ hc
  exact ⟨rfl, hc⟩

/-- Without a current task no file is changed. -/
theorem files_apply_of_no_task (source : Text) (yes : Bool) {desk : Desk}
    (hc : desk.ledger.current = none) :
    (outcome (app.apply source yes) desk).2.host.files = desk.host.files := by
  obtain ⟨host, hh, he⟩ := app.spares_prepare source yes desk
  rw [apply_eq, outcome_bind]
  rcases ho : outcome (app.prepare source yes) desk with ⟨stop | ⟨a, text⟩, ready⟩
  · rw [ho] at he
    obtain rfl : ready = { desk with host } := he
    exact hh.files
  · rw [ho] at he
    obtain rfl : ready = { desk with host } := he
    have hneed : outcome LedgerAction.needCurrent { desk with host } =
        (.error .noActiveTask, { desk with host }) := by
      rw [outcome_needCurrent]
      simp only [hc]
    have hstep : outcome (ofLedger (applyReply a text)) { desk with host } =
        (.error (.failure .noActiveTask), { desk with host }) := by
      rw [outcome_ofLedger, applyReply, outcome_bind_of_error hneed]
      rfl
    dsimp only
    rw [outcome_bind_of_error hstep]
    exact hh.files

end App

/-! ## Showing the operations of a reply -/

/-- What `parse` does with the text that it has read. -/
def showText (text : Text) : Step Host Unit := do
  let ops ← ofAction (readReply text)
  if ops.isEmpty then ofAction (Action.say .warn "No operation blocks found")
  else
    ofAction ((ops.zipIdx 1).forM fun (op, i) =>
      Action.emit (.line (Text.padLeft 3 (Text.ofNat i) ++ ". " ++
        Text.padRight 15 op.kind.word ++ " " ++ op.label Value.plain)))

theorem showOperations_eq_bind (source : Text) :
    showOperations source = readSource source >>= showText := rfl

theorem heedless_showText (text : Text) : Relates (Host.Resembles v) (showText text) := by
  refine (heedless_ofAction (heedless_readReply text)).bind fun ops => ?_
  split
  · exact heedless_ofAction (Action.heedless_say _ _)
  · exact heedless_ofAction (Relates.forM fun _ => heedless_emit _)

end CommandLine

end ReplyLedger
