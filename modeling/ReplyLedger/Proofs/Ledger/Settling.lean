import ReplyLedger.Proofs.Ledger.Runner
import ReplyLedger.Proofs.Ledger.Stored

/-!
# Committing and undoing

A task is settled when it is committed or undone. A step does that only to the current task, which
has to be applied, and asks the runner for it once, with the user's consent to an undo
(`Session.Warrants`). The task is saved with its new status if the runner agrees, and nothing has
changed if it does not (`Session.Settling`).
-/

namespace ReplyLedger

open Ledger LedgerAction

/-- Whether the answer to a step says that the current task has been committed or undone. -/
def Ledger.Step.settles : Ledger.Step → Except Failure Answer → Bool
  | .commit, .ok _ => true
  | .undo _, .ok (.agreed true) => true
  | _, _ => false

/-- Whether a status is one that a task is settled with. -/
def TaskStatus.IsClosed (status : TaskStatus) : Prop := status = .committed ∨ status = .undone

namespace TaskStatus.IsClosed

variable {status : TaskStatus}

theorem ne_applied (h : status.IsClosed) : status ≠ .applied := by
  rcases h with rfl | rfl <;> decide

theorem ne_pending (h : status.IsClosed) : status ≠ .pending := by
  rcases h with rfl | rfl <;> decide

end TaskStatus.IsClosed

namespace Session

/-- What a step has reason to ask of the runner: to commit the current task, or to undo it if the
user agrees, as long as the task is applied. -/
inductive Warrants (s : Session) : Ledger.Step → VcsCall → Prop
  | commit {t : Task} {name : Text} (current : s.desk.ledger.current = some t)
      (applied : t.status = .applied) (named : t.name = .text name) :
      Warrants s .commit (.commit ("Task: " ++ name))
  | undo {t : Task} {confirm : Confirm} (current : s.desk.ledger.current = some t)
      (applied : t.status = .applied)
      (agreed : (confirm (undoQuestion t) s.desk.host.console).1 = some true) :
      Warrants s (.undo confirm) .reset

/-- What a step asks of the runner, if it settles the current task exactly when `done`: nothing, and
then it settles none, or what it warrants, and then it settles the task if the runner agrees. -/
def Asks (s : Session) (step : Ledger.Step) (done : Prop) (after : Desk) : Prop :=
  (s.desk.Unasked after ∧ ¬ done) ∨
    ∃ call, s.Warrants step call ∧ s.desk.Asked call done after

/-- What a step that may commit or undo the current task comes to. -/
inductive Settling (d : Location) (s : Session) (step : Ledger.Step) : Prop → Desk → Prop
  /-- The runner is not asked. -/
  | unasked {host : Host} (spared : s.desk.host.Spared host) (git : host.git = s.desk.host.git) :
      Settling d s step False ⟨host, s.desk.ledger⟩
  /-- The runner does not agree. -/
  | refused {call : VcsCall} {host : Host} {vcs : Vcs} (warrants : s.Warrants step call)
      (spared : s.desk.host.Spared host)
      (asked : s.desk.Asked call False ⟨host, { s.desk.ledger with vcs }⟩) :
      Settling d s step False ⟨host, { s.desk.ledger with vcs }⟩
  /-- The runner agrees, and the task is saved with its new status. -/
  | saved {call : VcsCall} {host : Host} {vcs : Vcs} {t : Task} {status : TaskStatus}
      (warrants : s.Warrants step call) (spared : s.desk.host.Spared host)
      (asked : s.desk.Asked call True ⟨host, { s.desk.ledger with vcs }⟩)
      (current : s.desk.ledger.current = some t) (applied : t.status = .applied)
      (closed : status.IsClosed) :
      Settling d s step True ⟨withRecord host d { t with status },
        { s.desk.ledger with vcs, current := some { t with status } }⟩

end Session

namespace Desk

variable {α : Type} {state : FilePath} {d : Location} {desk : Desk} {t : Task}

/-- There is a current task and it is applied, or a step that needs that fails. -/
theorem needApplied_cases (action : VcsAction) (desk : Desk) :
    (∃ f, outcome (needApplied action) desk = (.error f, desk)) ∨
      ∃ t, desk.ledger.current = some t ∧ t.status = .applied ∧
        outcome (needApplied action) desk = (.ok t, desk) := by
  rw [needApplied, outcome_bind, outcome_needCurrent]
  rcases desk.ledger.current with _ | t
  · exact .inl ⟨_, rfl⟩
  · dsimp only
    by_cases hs : t.status = .applied
    · rw [if_pos hs]
      exact .inr ⟨t, rfl, hs, rfl⟩
    · rw [if_neg hs]
      exact .inl ⟨_, rfl⟩

/-- When the runner has been asked about the current task, it agrees and the task is saved with a new
status, or the step fails. -/
theorem Stored.ask_cases (hd : Stored state d desk) (hc : desk.ledger.current = some t)
    {act : LedgerAction Bool} {call : VcsCall}
    (hasks : desk.Asked call ((outcome act desk).1 = .ok true) (outcome act desk).2)
    (hspares : LedgerAction.Spares act) (status : TaskStatus) (a : α) (f : Failure) :
    ∃ host vcs, desk.host.Spared host ∧
      ((∃ e, outcome (act >>= fun agreed => if agreed then
          Ledger.saveCurrent { t with status } >>= fun _ => pure a else LedgerAction.fail f) desk =
            (.error e, ⟨host, { desk.ledger with vcs }⟩) ∧
          desk.Asked call False ⟨host, { desk.ledger with vcs }⟩) ∨
        (outcome (act >>= fun agreed => if agreed then
          Ledger.saveCurrent { t with status } >>= fun _ => pure a else LedgerAction.fail f) desk =
            (.ok a, ⟨withRecord host d { t with status },
              { desk.ledger with vcs, current := some { t with status } }⟩) ∧
          desk.Asked call True ⟨host, { desk.ledger with vcs }⟩)) := by
  obtain ⟨host, vcs, hh, hafter⟩ := hspares desk
  refine ⟨host, vcs, hh, ?_⟩
  rcases ho : outcome act desk with ⟨e | agreed, after⟩
  · rw [ho] at hafter hasks
    obtain rfl : after = _ := hafter
    exact .inl ⟨e, outcome_bind_of_error ho, hasks.congr (by simp)⟩
  · rw [ho] at hafter hasks
    obtain rfl : after = _ := hafter
    rw [outcome_bind_of_ok ho]
    cases agreed with
    | false => exact .inl ⟨f, rfl, hasks.congr (by simp)⟩
    | true =>
      have hstored := hd.spared hh vcs
      have ht := (hd.inMemory t hc).setStatus status
      rw [if_pos rfl, outcome_bind_of_ok (hstored.outcome_saveCurrent ht)]
      exact .inr ⟨rfl, hasks.congr (by simp)⟩

end Desk

namespace Session

variable {state : FilePath} {d : Location} {s : Session} {step : Ledger.Step} {done : Prop}

theorem Settling.congr {done' : Prop} {after : Desk} (h : s.Settling d step done after)
    (hs : done ↔ done') : s.Settling d step done' after := propext hs ▸ h

theorem Stored.settling_commit (hs : s.Stored state d) :
    s.Settling d .commit (Step.settles .commit (s.take .commit).1) (s.take .commit).2.desk := by
  change s.Settling d .commit (Step.settles .commit ((outcome Ledger.commit s.desk).1.map .task))
    (outcome Ledger.commit s.desk).2
  rw [Ledger.commit]
  rcases Desk.needApplied_cases .commit s.desk with ⟨f, ho⟩ | ⟨t, hc, happlied, ho⟩
  · rw [outcome_bind_of_error ho]
    exact (Settling.unasked (.refl _) rfl).congr (by simp [Step.settles, Except.map])
  · rw [outcome_bind_of_ok ho]
    obtain ⟨name, hname⟩ := (hs.desk.inMemory t hc).isTextual.name
    have hmessage : commitMessage t = "Task: " ++ name := by
      change "Task: " ++ t.name.plain = _
      rw [hname]
      rfl
    have hwarrants : s.Warrants .commit (.commit (commitMessage t)) :=
      hmessage ▸ .commit hc happlied hname
    obtain ⟨host, vcs, hh, ⟨e, ho, ha⟩ | ⟨ho, ha⟩⟩ := hs.desk.ask_cases hc
      (asked_commitTree (commitMessage t) s.desk) (spares_commitTree _) .committed
      ({ t with status := .committed } : Task) (.vcsFailed .commit t.name.plain)
    · rw [ho]
      exact (Settling.refused hwarrants hh ha).congr (by simp [Step.settles, Except.map])
    · rw [ho]
      exact (Settling.saved hwarrants hh ha hc happlied (.inl rfl)).congr
        (by simp [Step.settles, Except.map])

theorem Stored.settling_undo (hs : s.Stored state d) (confirm : Confirm) :
    s.Settling d (.undo confirm) (Step.settles (.undo confirm) (s.take (.undo confirm)).1)
      (s.take (.undo confirm)).2.desk := by
  change s.Settling d _
    (Step.settles (.undo confirm) ((outcome (Ledger.undo confirm) s.desk).1.map .agreed))
    (outcome (Ledger.undo confirm) s.desk).2
  rw [Ledger.undo]
  rcases Desk.needApplied_cases .undo s.desk with ⟨f, ho⟩ | ⟨t, hc, happlied, ho⟩
  · rw [outcome_bind_of_error ho]
    exact (Settling.unasked (.refl _) rfl).congr (by simp [Step.settles, Except.map])
  have hspared := Action.spares_ask confirm (undoQuestion t) s.desk.host
  rw [outcome_bind_of_ok ho, outcome_bind, outcome_lift]
  rw [Action.outcome_ask] at hspared ⊢
  rcases hagreed : (confirm (undoQuestion t) s.desk.host.console).1 with _ | _ | _
  · exact (Settling.unasked hspared rfl).congr (by simp [Step.settles, Except.map])
  · exact (Settling.unasked hspared rfl).congr (by simp [Step.settles, Except.map])
  · have hstored := hs.desk.spared hspared s.desk.ledger.vcs
    obtain ⟨host, vcs, hh, hcases⟩ := hstored.ask_cases hc (asked_resetTree _) spares_resetTree
      .undone true (.vcsFailed .undo t.name.plain)
    have hunasked : s.desk.Unasked ⟨_, s.desk.ledger⟩ := ⟨rfl, rfl⟩
    have hwarrants : s.Warrants (.undo confirm) .reset := .undo hc happlied hagreed
    rcases hcases with ⟨e, ho, ha⟩ | ⟨ho, ha⟩
    · simp only [if_true]
      rw [ho]
      exact (Settling.refused hwarrants (hspared.trans hh) (hunasked.asked ha)).congr
        (by simp [Step.settles, Except.map])
    · simp only [if_true]
      rw [ho]
      exact (Settling.saved hwarrants (hspared.trans hh) (hunasked.asked ha) hc happlied
        (.inr rfl)).congr (by simp [Step.settles, Except.map])

/-! ### What follows from it -/

namespace Settling

variable {after : Desk}

/-- The runner is asked only for what the step warrants, and the task is settled if it agrees. -/
theorem asks (h : s.Settling d step done after) : s.Asks step done after := by
  cases h with
  | unasked spared git => exact .inl ⟨⟨rfl, git⟩, id⟩
  | refused warrants spared asked => exact .inr ⟨_, warrants, asked⟩
  | saved warrants spared asked current applied closed =>
    exact .inr ⟨_, warrants, asked.unasked ⟨rfl, rfl⟩⟩

/-- A task that is not settled is left as it was, in memory and on the disk. -/
theorem untouched (h : s.Settling d step done after) (hs : ¬ done) :
    after.ledger.current = s.desk.ledger.current ∧ after.host.files = s.desk.host.files := by
  cases h with
  | unasked spared git => exact ⟨rfl, spared.files⟩
  | refused warrants spared asked => exact ⟨rfl, spared.files⟩
  | saved warrants spared asked current applied closed => exact absurd trivial hs

end Settling

/-- A commit or an undo that settles nothing leaves the tasks in memory and all files alone. -/
theorem Stored.untouched_take (hs : s.Stored state d)
    (hstep : step = .commit ∨ ∃ confirm, step = .undo confirm)
    (hn : ¬ step.settles (s.take step).1) :
    (s.take step).2.desk.ledger.current = s.desk.ledger.current ∧
      (s.take step).2.copies = s.copies ∧
      (s.take step).2.desk.host.files = s.desk.host.files := by
  rcases hstep with rfl | ⟨confirm, rfl⟩
  · obtain ⟨hcurrent, hfiles⟩ := hs.settling_commit.untouched hn
    exact ⟨hcurrent, rfl, hfiles⟩
  · obtain ⟨hcurrent, hfiles⟩ := (hs.settling_undo confirm).untouched hn
    exact ⟨hcurrent, rfl, hfiles⟩

end Session

end ReplyLedger
