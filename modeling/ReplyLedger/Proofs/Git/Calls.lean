import ReplyLedger.Git.Commands
import ReplyLedger.Proofs.Host.Outcome

/-!
# Calls of the version-control program

An action can call the version-control program with one command after the other, as long as the calls
succeed: then the calls that are made are the first ones of those commands, and the answer is yes if
all of them were made and succeeded (`Git.Runs`).
-/

namespace ReplyLedger

/-- Whether a call succeeds: the program is there and ends with the status zero. -/
def GitReply.succeeds : GitReply → Bool
  | .ended status _ _ => status = 0
  | .missing => false

namespace Git

/-- The program after a call. -/
def called (g : Git) (directory : Option Text) (command : List Text) : Git :=
  ⟨g.replies.tail, g.calls ++ [⟨"git" :: command, directory⟩]⟩

/-- The program has been called in a directory with the first ones of the commands, and `granted`
says whether all were made and succeeded. -/
def Called (directory : Option Text) (commands : List (List Text)) (granted : Prop)
    (before after : Git) : Prop :=
  ∃ made, made <+: commands ∧ (made = [] → commands = []) ∧
    after.calls = before.calls ++ made.map (fun command => ⟨"git" :: command, directory⟩) ∧
    after.replies = before.replies.drop made.length ∧
    (granted ↔ made = commands ∧ (before.replies.take made.length).all GitReply.succeeds)

/-- An action that calls the program with commands in turn, and answers whether they succeeded. -/
def Runs (directory : Option Text) (commands : List (List Text)) (act : Action Bool) : Prop :=
  ∀ h : Host, Called directory commands ((outcome act h).1 = .ok true) h.git (outcome act h).2.git

theorem outcome_run (command : List Text) (directory : Option Text) (h : Host) :
    outcome (run command directory) h =
      (match h.git.replies.headD (.ended 0 [] []) with
        | .ended status output errors => .ok (status, output, errors)
        | .missing => .error (.system .noEntry "git"),
        { h with git := h.git.called directory command }) := by
  rw [run, outcome_bind_of_ok (outcome_get h)]
  dsimp only
  rw [outcome_bind_of_ok (outcome_set h _)]
  cases h.git.replies.headD (.ended 0 [] []) <;> rfl

end Git

end ReplyLedger
