import ReplyLedger.Proofs.Git.Requests
import ReplyLedger.Proofs.Ledger.Account
import ReplyLedger.Proofs.Ledger.Settling

/-!
# Tasks are settled exactly when the program did it

When the version-control program is asked to commit or to discard the changes of the current task,
the requests of that are made in turn, and the task is settled if and only if all were granted
(`Ledger.settled_iff_granted`), whatever the program answers. If not, the step fails and neither the
ledger nor any file has changed. If they were, the task has its new status, and so has its record if
that can be written.
-/

namespace ReplyLedger

open Ledger LedgerAction

/-- The requests to the version-control program for what a runner is asked. -/
def VcsCall.requests : VcsCall → List Git.Request
  | .commit message => [.askTree, .demand ["add", "-A"], .demand ["commit", "-m", message]]
  | .reset => [.askTree, .demand ["reset", "--hard", "HEAD"]]

/-- Writing the file of a path is the same on a host with the same files. -/
theorem Host.Writes.spared {h h' : Host} {path : FilePath} {p : Location} (hw : h.Writes path p)
    (hh : h.Spared h') : h'.Writes path p := by
  have hnul : FileSystem.hasNul path.text = false := by
    by_contra hn
    have ho := hw.outcome []
    rw [Action.writeText, Action.outcome_change_of_hasNul (by simpa using hn)] at ho
    cases (Prod.mk.inj ho).1
  refine ⟨hh.files ▸ hw.accepts, fun t => ?_⟩
  have ho := hw.outcome t
  rw [Action.writeText, Action.outcome_change hnul] at ho ⊢
  rw [hh.files, hh.cwd]
  split at ho
  · obtain rfl : _ = h.files.put p (.file (Utf8.encode t)) := congrArg Host.files (Prod.mk.inj ho).2
    rfl
  · cases (Prod.mk.inj ho).1

namespace Desk

variable {α : Type} {directory : Option Text} {requests : List Git.Request} {desk : Desk} {t : Task}
variable {status : TaskStatus} {action : VcsAction} {a : α}

/-- A step makes requests about the current task, which gets a new status exactly if they are all
granted. -/
structure SettledByGit (directory : Option Text) (requests : List Git.Request) (t : Task)
    (status : TaskStatus) (action : VcsAction) (a : α) (before : Desk)
    (o : Except Failure α × Desk) : Prop where
  git : o.2.host.git = before.host.git.after directory requests
  settled_iff : o.2.ledger.current = some { t with status } ↔
    Git.allGranted requests before.host.git.replies
  /-- The task is saved after its requests, and the step comes to what saving comes to. -/
  granted : Git.allGranted requests before.host.git.replies →
    Git.callsMade requests before.host.git.replies = requests.map Git.Request.command ∧
      o.2.ledger = { before.ledger with current := some { t with status } } ∧
      ∃ host, before.host.Spared host ∧
        o = outcome (saveCurrent { t with status } >>= fun _ => pure a) ⟨host, before.ledger⟩
  /-- Where the record can be written, the task is recorded with its new status. -/
  recorded : Git.allGranted requests before.host.git.replies →
    ∀ record, before.host.Writes (before.ledger.recordPath t.id) record → o.1 = .ok a ∧
      o.2.host.files = before.host.files.put record (.file (recordBytes { t with status }))
  refused : Git.allGranted requests before.host.git.replies = false →
    (o.1 = .error (.vcsFailed action t.name.plain) ∨ o.1 = .error (.system .noEntry "git")) ∧
      o.2.ledger = before.ledger ∧ o.2.host.files = before.host.files

/-- A step that makes requests, answers whether they were granted and does nothing else. -/
def Makes (directory : Option Text) (requests : List Git.Request) (act : LedgerAction Bool)
    (desk : Desk) : Prop :=
  ∃ host, desk.host.Spared host ∧ host.git = desk.host.git.after directory requests ∧
    (outcome act desk).2 = ⟨host, desk.ledger⟩ ∧
    Git.Answers requests desk.host.git.replies (outcome act desk).1

theorem makes_lift {act : Action Bool} (hm : Git.Meets directory requests act)
    (hs : Action.Spares act) (desk : Desk) :
    desk.Makes directory requests (liftM act : LedgerAction Bool) := by
  obtain ⟨hgit, hanswers⟩ := hm desk.host
  exact ⟨(outcome act desk.host).2, hs desk.host, hgit, rfl, hanswers⟩

theorem makes_commitTree (hv : desk.ledger.vcs = .git directory) (message : Text) :
    desk.Makes directory (VcsCall.commit message).requests (commitTree message) := by
  have hlift := makes_lift (Git.meets_commitAll directory message).inRepository
    (Action.spares_inRepository _ (Action.spares_commitAll directory message)) desk
  rw [Makes, commitTree, outcome_bind_of_ok (outcome_ledger desk)]
  simp only [hv]
  exact hlift

theorem makes_resetTree (hv : desk.ledger.vcs = .git directory) :
    desk.Makes directory VcsCall.reset.requests resetTree := by
  have hlift := makes_lift (Git.meets_discardChanges directory).inRepository
    (Action.spares_inRepository _ (Action.spares_discardChanges directory)) desk
  rw [Makes, resetTree, outcome_bind_of_ok (outcome_ledger desk)]
  simp only [hv]
  exact hlift

/-- Saving a task makes it the current one, also if its record cannot be written. -/
theorem ledger_saveCurrent (u : Task) (desk : Desk) :
    (outcome (saveCurrent u) desk).2.ledger = { desk.ledger with current := some u } := by
  rw [saveCurrent, outcome_bind_of_ok (outcome_update _ _), outcome_bind_of_ok (outcome_ledger _),
    outcome_lift]

theorem ledger_saveCurrent_bind (u : Task) (a : α) (desk : Desk) :
    (outcome (saveCurrent u >>= fun _ => pure a) desk).2.ledger =
      { desk.ledger with current := some u } := by
  rw [outcome_bind, ← ledger_saveCurrent]
  rcases outcome (saveCurrent u) desk with ⟨_ | _, after⟩
  · rfl
  · rfl

/-- Saving a task makes no calls. -/
theorem git_saveCurrent_bind (u : Task) (a : α) (desk : Desk) :
    (outcome (saveCurrent u >>= fun _ => pure a) desk).2.host.git = desk.host.git := by
  have hsave : (outcome (saveCurrent u) desk).2.host.git = desk.host.git := by
    rw [saveCurrent, outcome_bind_of_ok (outcome_update _ _), outcome_bind_of_ok (outcome_ledger _),
      outcome_lift]
    exact Action.git_change _ _ desk.host
  rw [outcome_bind, ← hsave]
  rcases outcome (saveCurrent u) desk with ⟨_ | _, after⟩
  · rfl
  · rfl

theorem Makes.settledByGit {act : LedgerAction Bool} (hm : desk.Makes directory requests act)
    (hc : desk.ledger.current = some t) (hs : t.status ≠ status) :
    SettledByGit directory requests t status action a desk
      (outcome (act >>= fun agreed => if agreed then saveCurrent { t with status } >>= fun _ => pure a
        else LedgerAction.fail (.vcsFailed action t.name.plain)) desk) := by
  obtain ⟨host, hspared, hgit, hafter, hanswers⟩ := hm
  rcases ho : outcome act desk with ⟨result, after⟩
  rw [ho] at hafter hanswers
  obtain rfl : after = _ := hafter
  have hopen : desk.ledger.current ≠ some { t with status } := by
    rw [hc]
    exact fun he => hs (congrArg Task.status (Option.some.inj he))
  rcases hgranted : Git.allGranted requests desk.host.git.replies with _ | _
  · -- the step fails, and nothing but the calls has happened
    obtain ⟨f, hf, hout⟩ : ∃ f, (f = .vcsFailed action t.name.plain ∨ f = .system .noEntry "git") ∧
        outcome (act >>= fun agreed => if agreed then saveCurrent { t with status } >>=
          fun _ => pure a else LedgerAction.fail (.vcsFailed action t.name.plain)) desk =
            (.error f, ⟨host, desk.ledger⟩) := by
      rcases hanswers with hno | ⟨-, hmissing⟩
      · rw [hgranted] at hno
        subst hno
        exact ⟨_, .inl rfl, outcome_bind_of_ok ho⟩
      · subst hmissing
        exact ⟨_, .inr rfl, outcome_bind_of_error ho⟩
    rw [hout]
    exact
      { git := hgit
        settled_iff := by rw [hgranted]; exact iff_of_false hopen nofun
        granted := by rw [hgranted]; exact nofun
        recorded := by rw [hgranted]; exact nofun
        refused := fun _ => ⟨hf.imp (congrArg _) (congrArg _), rfl, hspared.files⟩ }
  · rcases hanswers with hyes | ⟨hno, -⟩
    · rw [hgranted] at hyes
      subst hyes
      rw [outcome_bind_of_ok ho, if_pos rfl]
      have hledger := ledger_saveCurrent_bind { t with status } a ⟨host, desk.ledger⟩
      have hcalls := git_saveCurrent_bind { t with status } a ⟨host, desk.ledger⟩
      exact
        { git := hcalls.trans hgit
          settled_iff := by rw [hgranted, hledger]; exact iff_of_true rfl rfl
          granted := fun hg => ⟨Git.callsMade_of_allGranted hg, hledger, host, hspared, rfl⟩
          recorded := fun _ record hw => by
            have hsave : outcome (saveCurrent { t with status }) ⟨host, desk.ledger⟩ = _ :=
              outcome_saveCurrent (hw.spared hspared) rfl
            rw [outcome_bind_of_ok hsave]
            exact ⟨rfl, by rw [← hspared.files]; rfl⟩
          refused := by rw [hgranted]; exact nofun }
    · exact nomatch hgranted.symm.trans hno

/-- What happens before the requests, as long as the program is left alone, does not matter. -/
theorem SettledByGit.of_spared {host : Host} {o : Except Failure α × Desk}
    (h : SettledByGit directory requests t status action a ⟨host, desk.ledger⟩ o)
    (hh : desk.host.Spared host) (hgit : host.git = desk.host.git) :
    SettledByGit directory requests t status action a desk o where
  git := by rw [h.git, hgit]
  settled_iff := by rw [h.settled_iff, hgit]
  granted hg := by
    obtain ⟨hmade, hledger, host', hh', ho⟩ := h.granted (by rwa [hgit])
    exact ⟨by rwa [hgit] at hmade, hledger, host', hh.trans hh', ho⟩
  recorded hg record hw := by
    rw [← hh.files]
    exact h.recorded (by rwa [hgit]) record (hw.spared hh)
  refused hg := by
    obtain ⟨hf, hledger, hfiles⟩ := h.refused (by rwa [hgit])
    exact ⟨hf, hledger, hfiles.trans hh.files⟩

end Desk

namespace Ledger

variable {directory : Option Text} {desk : Desk} {t : Task}

/-- **The current task is committed or undone exactly when the version-control program did it.** For
an applied task the program is called with the commands of a commit, or of a reset if the user agrees
to that, up to the first call that does not succeed. The task gets its new status if and only if all
of them do; then its record is saved. Otherwise the step fails, and the ledger and all files stay as
they were. -/
theorem settled_iff_granted (hv : desk.ledger.vcs = .git directory)
    (hc : desk.ledger.current = some t) (hs : t.status = .applied) :
    Desk.SettledByGit directory (VcsCall.commit ("Task: " ++ t.name.plain)).requests t .committed
        .commit { t with status := .committed } desk (outcome commit desk) ∧
      ∀ confirm : Confirm, (confirm (undoQuestion t) desk.host.console).1 = some true →
        Desk.SettledByGit directory VcsCall.reset.requests t .undone .undo true desk
          (outcome (undo confirm) desk) := by
  have happlied (action : VcsAction) : outcome (needApplied action) desk = (.ok t, desk) := by
    rw [needApplied, outcome_bind_of_ok (outcome_needCurrent_of_current hc), if_pos hs]
    rfl
  refine ⟨?_, fun confirm hagreed => ?_⟩
  · rw [commit, outcome_bind_of_ok (happlied .commit)]
    have hopen : t.status ≠ .committed := by simp [hs]
    exact (Desk.makes_commitTree hv (commitMessage t)).settledByGit hc hopen
  · have hspared := Action.spares_ask confirm (undoQuestion t) desk.host
    rw [undo, outcome_bind_of_ok (happlied .undo), outcome_bind, outcome_lift]
    rw [Action.outcome_ask] at hspared ⊢
    rw [hagreed]
    refine Desk.SettledByGit.of_spared ?_ hspared rfl
    dsimp only
    rw [if_pos rfl]
    have hopen : t.status ≠ .undone := by simp [hs]
    exact Desk.Makes.settledByGit (Desk.makes_resetTree hv) hc hopen

/-- A task to which operations have been applied. -/
def appliedTask : Task := { plainTask with status := .applied }

/-- A ledger in `/s` whose current task is applied, and a version-control program for `/w` with the
answers that it is going to give. -/
def appliedDesk (replies : List GitReply) : Desk where
  host :=
    let files := (FileSystem.empty.put [['s']] .directory).put [['s'], recordName ['a', '1']]
      (.file (recordBytes appliedTask))
    { Host.ofFiles files with git := { replies } }
  ledger :=
    { tasksDirectory := .ofNames [['s']]
      pointer := none
      vcs := .git (some "/w")
      current := some appliedTask }

theorem writes_appliedDesk (replies : List GitReply) :
    (appliedDesk replies).host.Writes ((appliedDesk replies).ledger.recordPath appliedTask.id)
      [['s'], recordName ['a', '1']] := by
  have hpath : (appliedDesk replies).ledger.recordPath appliedTask.id = _ :=
    recordPath_eq _ (by decide)
  have hdirectory : (appliedDesk replies).host.files.IsDirectory [['s']] := by
    change ((FileSystem.empty.put [['s']] .directory).put _ _).IsDirectory _
    decide +kernel
  have hrecorded : (appliedDesk replies).host.files.entryAt ([['s']] ++ [recordName ['a', '1']]) =
      some (.file (recordBytes appliedTask)) := by
    change ((FileSystem.empty.put _ _).put _ _).entryAt _ = _
    decide +kernel
  rw [hpath]
  exact (Host.NamesFile.of_names hdirectory hrecorded).writes

/-- A commit whose three calls succeed is recorded. An undo whose second call finds the program gone
fails after it, and the files are as before. -/
theorem settled_iff_granted_appliedDesk :
    let there : GitReply := .ended 0 " true\n" []
    let committed : Task := { appliedTask with status := .committed }
    let granting := appliedDesk [there, .ended 0 [] [], .ended 0 [] []]
    let interrupted := appliedDesk [there, .missing, .ended 0 [] []]
    let yes : Confirm := fun _ console => (some true, console)
    ((outcome commit granting).1 = .ok committed ∧
        (outcome commit granting).2.host.files =
          granting.host.files.put [['s'], recordName ['a', '1']] (.file (recordBytes committed)) ∧
        (outcome commit granting).2.host.git.calls.map GitCall.arguments =
          ([["git", "rev-parse", "--is-inside-work-tree"], ["git", "add", "-A"],
            ["git", "commit", "-m", "Task: A"]] : List (List Text))) ∧
      (∃ f, (outcome (undo yes) interrupted).1 = .error f) ∧
        (outcome (undo yes) interrupted).2.ledger = interrupted.ledger ∧
        (outcome (undo yes) interrupted).2.host.files = interrupted.host.files ∧
        (outcome (undo yes) interrupted).2.host.git.calls.map GitCall.arguments =
          ([["git", "rev-parse", "--is-inside-work-tree"], ["git", "reset", "--hard", "HEAD"]] :
            List (List Text)) := by
  intro there committed granting interrupted yes
  have hcommit : Desk.SettledByGit _ _ _ _ _ _ granting (outcome commit granting) :=
    (settled_iff_granted rfl rfl rfl).1
  have hundo : Desk.SettledByGit _ _ _ _ _ _ interrupted (outcome (undo yes) interrupted) :=
    (settled_iff_granted rfl rfl rfl).2 yes rfl
  obtain ⟨hok, hfiles⟩ := hcommit.recorded rfl _ (writes_appliedDesk _)
  obtain ⟨hf, hledger, hunchanged⟩ := hundo.refused rfl
  refine ⟨⟨hok, hfiles, ?_⟩, ?_, hledger, hunchanged, ?_⟩
  · rw [hcommit.git]
    rfl
  · rcases hf with hf | hf
    · exact ⟨_, hf⟩
    · exact ⟨_, hf⟩
  · rw [hundo.git]
    rfl

end Ledger

end ReplyLedger
