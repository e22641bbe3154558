import ReplyLedger.Proofs.Git.Requests
import ReplyLedger.Proofs.Ledger.Steps

/-!
# What the runner of a ledger is asked

Committing and undoing ask the version-control runner of the ledger, once in a step (`Desk.Asked`);
a runner that only notes keeps what it was asked, and the version-control program is called with the
commands for it. What asks nothing leaves the runner alone (`Desk.Unasked`).
-/

namespace ReplyLedger

open Ledger LedgerAction Json

/-- The commands of the version-control program for what a runner is asked. -/
def VcsCall.commands : VcsCall → List (List Text)
  | .commit message =>
    [["rev-parse", "--is-inside-work-tree"], ["add", "-A"], ["commit", "-m", message]]
  | .reset => [["rev-parse", "--is-inside-work-tree"], ["reset", "--hard", "HEAD"]]

namespace Desk

/-- The runner has been asked for `call`, and has agreed if `granted`. -/
def Asked (call : VcsCall) (granted : Prop) (before after : Desk) : Prop :=
  match before.ledger.vcs with
  | .git directory =>
    after.ledger.vcs = .git directory ∧
      Git.Called directory call.commands granted before.host.git after.host.git
  | .noting answers calls =>
    after.ledger.vcs = .noting answers.tail (calls ++ [call]) ∧
      after.host.git = before.host.git ∧ (granted ↔ answers.headD true = true)

/-- Nothing has been asked of the runner. -/
structure Unasked (before after : Desk) : Prop where
  vcs : after.ledger.vcs = before.ledger.vcs
  git : after.host.git = before.host.git

theorem Unasked.refl (desk : Desk) : Unasked desk desk := ⟨rfl, rfl⟩

variable {call : VcsCall} {granted granted' : Prop} {before mid after : Desk}

theorem Asked.congr (ha : Asked call granted before after) (h : granted ↔ granted') :
    Asked call granted' before after := propext h ▸ ha

theorem Unasked.asked (h : Unasked before mid) (ha : Asked call granted mid after) :
    Asked call granted before after := by
  unfold Asked at ha ⊢
  rwa [h.vcs, h.git] at ha

theorem Asked.unasked (ha : Asked call granted before mid) (h : Unasked mid after) :
    Asked call granted before after := by
  unfold Asked at ha ⊢
  rwa [h.vcs, h.git]

end Desk

/-! ## Asking the runner -/

namespace Ledger

/-- Asking a runner only to note is one call, which it answers in turn. -/
theorem asked_answerOf (call : VcsCall) {desk : Desk} {answers : List Bool} {calls : List VcsCall}
    (hv : desk.ledger.vcs = .noting answers calls) :
    desk.Asked call ((outcome (answerOf call) desk).1 = .ok true) (outcome (answerOf call) desk).2 := by
  rw [answerOf, outcome_bind_of_ok (outcome_ledger desk)]
  simp only [hv]
  rw [outcome_bind_of_ok (outcome_update _ desk)]
  unfold Desk.Asked
  simp only [hv]
  exact ⟨rfl, rfl, by simp⟩

theorem asked_commitTree (message : Text) (desk : Desk) :
    desk.Asked (.commit message) ((outcome (commitTree message) desk).1 = .ok true)
      (outcome (commitTree message) desk).2 := by
  rw [commitTree, outcome_bind_of_ok (outcome_ledger desk)]
  split
  · rename_i directory hv
    have hruns : Git.Runs directory (VcsCall.commit message).commands _ :=
      Git.runs_inRepository (List.cons_ne_nil _ _) (Git.meets_commitAll directory message)
    unfold Desk.Asked
    simp only [hv]
    exact ⟨hv, hruns desk.host⟩
  · rename_i hv
    exact asked_answerOf (.commit message) hv

theorem asked_resetTree (desk : Desk) :
    desk.Asked .reset ((outcome resetTree desk).1 = .ok true) (outcome resetTree desk).2 := by
  rw [resetTree, outcome_bind_of_ok (outcome_ledger desk)]
  split
  · rename_i directory hv
    have hruns : Git.Runs directory VcsCall.reset.commands _ :=
      Git.runs_inRepository (List.cons_ne_nil _ _) (Git.meets_discardChanges directory)
    unfold Desk.Asked
    simp only [hv]
    exact ⟨hv, hruns desk.host⟩
  · rename_i hv
    exact asked_answerOf .reset hv

end Ledger

end ReplyLedger
