import ReplyLedger.Proofs.Ledger.Order
import ReplyLedger.Proofs.Ledger.Session

/-!
# What steps are made of

Steps change a task into one that can be kept if it could be kept before. Asking the user and calling
the version-control program spares the files, and changes nothing of the ledger but its version
control (`LedgerAction.Spares`).
-/

namespace ReplyLedger

open LedgerAction Ledger Json

/-! ## Tasks that can be kept -/

namespace Task.IsStorable

variable {t : Task}

theorem record (h : t.IsStorable) (ops : List MadeOperation) :
    (t.record (MadeOperation.values ops)).IsStorable := by
  have hops : ∀ op ∈ MadeOperation.values ops, op.IsTextual := by
    intro op hop
    obtain ⟨made, -, rfl⟩ := List.mem_map.1 hop
    exact ⟨made.1, rfl, made.2⟩
  refine ⟨?_, h.isTextual.record hops⟩
  unfold Task.record
  split
  · exact h.isId
  · exact h.isId

theorem addFiles (h : t.IsStorable) (paths : List Text) :
    (t.addFiles (paths.map .text)).IsStorable := by
  refine ⟨h.isId, h.isTextual.addFiles fun v hv => ?_⟩
  obtain ⟨p, -, rfl⟩ := List.mem_map.1 hv
  exact ⟨p, rfl⟩

theorem setStatus (h : t.IsStorable) (status : TaskStatus) :
    ({ t with status } : Task).IsStorable := ⟨h.isId, h.isTextual.setStatus status⟩

end Task.IsStorable

theorem Task.record_id (t : Task) (ops : List (Operation Value)) : (t.record ops).id = t.id := by
  unfold Task.record
  split <;> rfl

/-! ## Steps that spare the files -/

namespace LedgerAction

variable {α : Type}

/-- A step that spares the files and changes nothing of the ledger but its version control. -/
def Spares (act : LedgerAction α) : Prop := ∀ desk : Desk, ∃ host vcs, desk.host.Spared host ∧
  (outcome act desk).2 = ⟨host, { desk.ledger with vcs }⟩

theorem spares_lift {act : Action α} (ha : Action.Spares act) :
    Spares (liftM act : LedgerAction α) :=
  fun desk => ⟨_, desk.ledger.vcs, ha desk.host, rfl⟩

theorem spares_answerOf (call : VcsCall) : Spares (answerOf call) := by
  rintro ⟨host, tasksDirectory, pointer, vcs, current⟩
  cases vcs with
  | git directory => exact ⟨host, .git directory, .refl _, rfl⟩
  | noting answers calls => exact ⟨host, .noting answers.tail (calls ++ [call]), .refl _, rfl⟩

theorem spares_commitTree (message : Text) : Spares (commitTree message) := by
  intro desk
  rw [commitTree, outcome_bind_of_ok (outcome_ledger desk)]
  split
  · exact spares_lift (Action.spares_inRepository _ (Action.spares_commitAll _ message)) desk
  · exact spares_answerOf (.commit message) desk

theorem spares_resetTree : Spares resetTree := by
  intro desk
  rw [resetTree, outcome_bind_of_ok (outcome_ledger desk)]
  split
  · exact spares_lift (Action.spares_inRepository _ (Action.spares_discardChanges _)) desk
  · exact spares_answerOf .reset desk

end LedgerAction

end ReplyLedger
