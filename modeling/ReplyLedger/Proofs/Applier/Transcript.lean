import ReplyLedger.Proofs.Applier.Failing
import ReplyLedger.Proofs.Host.Views

/-!
# What operations do not look at

An operation comes to the same whatever a view does not show of the console
(`Applier.heedless_apply`), and so does a batch of them (`Applier.heedless_applyAll`), if the answers
to its questions do not depend on that either. For answers that do not depend on what has been shown
before, what has been shown makes no difference.
-/

namespace ReplyLedger

open ReplyLedger.Action Json

variable {v : Console.View}

theorem Workspace.heedless_resolveIn (w : Workspace) (path : Text) :
    Heedless v (w.resolveIn path) := by
  refine heedless_get_bind (fun h => ?_) fun _ _ => rfl
  split
  · exact relates_fail _
  · exact relates_fail _
  · split
    · exact relates_pure _
    · exact relates_fail _

theorem Journal.heedless_write (j : Journal) (entry : Text) : Heedless v (j.write entry) := by
  refine (heedless_ensureDirectories _).bind fun _ => heedless_journalNow.bind fun time => ?_
  exact (heedless_change _ _).bind fun _ => heedless_say _ _

namespace Applier

variable {a : Applier}

/-- Whether the answers to questions do not depend on what has been shown. -/
def AnswersUnshown (a : Applier) : Prop :=
  ∀ confirm, a.confirm = some confirm → ∀ question (c₁ c₂ : Console), c₁.unshown = c₂.unshown →
    (confirm question c₁).1 = (confirm question c₂).1 ∧
      (confirm question c₁).2.unshown = (confirm question c₂).2.unshown

/-- Whether the answers to questions do not depend on what a view does not show. -/
def AnswersAlike (a : Applier) (v : Console.View) : Prop :=
  ∀ confirm, a.confirm = some confirm → ∀ question (c₁ c₂ : Console), v.Alike c₁ c₂ →
    (confirm question c₁).1 = (confirm question c₂).1 ∧
      v.Alike (confirm question c₁).2 (confirm question c₂).2

theorem AnswersUnshown.alike (ha : a.AnswersUnshown) : a.AnswersAlike .unshown := ha

theorem heedless_mayOverwrite (ha : a.AnswersAlike v) (path : Text) :
    Heedless v (a.mayOverwrite path) := by
  unfold mayOverwrite
  split
  · rename_i confirm hc
    rintro h₁ h₂ ⟨c, rfl, halike⟩
    obtain ⟨hanswer, hconsole⟩ := ha confirm hc path h₁.console c halike
    rw [outcome_ask, outcome_ask, hanswer]
    exact ⟨rfl, _, rfl, hconsole⟩
  · exact relates_pure false

theorem heedless_needText (value : Value) : Heedless v (needText value) := by
  unfold needText
  split
  · exact relates_pure _
  · exact relates_fail _

theorem heedless_writeValue (path : Text) (content : Value) : Heedless v (writeValue path content) := by
  unfold writeValue
  split
  · exact heedless_change _ _
  · exact (heedless_change _ _).bind fun _ => relates_fail _

theorem heedless_locate (a : Applier) (path : Text) : Heedless v (a.locate path) :=
  (a.workspace.heedless_resolveIn path).map _

theorem heedless_locateFile (a : Applier) (path : Text) : Heedless v (a.locateFile path) := by
  refine (heedless_locate a path).bind fun target => (heedless_isFile _).bind fun there => ?_
  cases there with
  | true => exact relates_pure _
  | false => exact relates_fail _

theorem heedless_makeRoom (a : Applier) (target : FilePath) : Heedless v (a.makeRoom target) := by
  refine Relates.bind (heedless_get_bind (fun h => ?_) fun _ _ => rfl) fun _ =>
    heedless_ensureDirectories _
  split
  · exact relates_pure _
  · exact relates_fail _

theorem heedless_moveByCopy (a : Applier) (src dst : FileSystem.Place) :
    Heedless v (a.moveByCopy src dst) := by
  rintro h₁ h₂ ⟨c, rfl, hc⟩
  rw [moveByCopy, outcome_bind_of_ok (outcome_get h₁), outcome_bind_of_ok (outcome_get _)]
  rcases h₁.files.copyTree a.levels src dst with ⟨_ | ⟨e, path⟩ | faults | _, files⟩
  · exact ⟨rfl, c, rfl, hc⟩
  · exact ⟨rfl, c, rfl, hc⟩
  · exact ⟨rfl, c, rfl, hc⟩
  · exact ⟨rfl, c, rfl, hc⟩

theorem heedless_move (a : Applier) (source target : Text) : Heedless v (a.move source target) := by
  intro h₁ h₂ h
  have hcopy := heedless_moveByCopy (v := v) a
  obtain ⟨c, rfl, hc⟩ := h
  rw [move, outcome_bind_of_ok (outcome_get h₁), outcome_bind_of_ok (outcome_get _)]
  rcases h₁.files.relocateAll h₁.cwd source target with fault | d | ⟨p, q⟩
  · cases fault <;> exact ⟨rfl, c, rfl, hc⟩
  · exact ⟨rfl, c, rfl, hc⟩
  · exact hcopy _ _ _ _ ⟨c, rfl, hc⟩

/-- **What an operation comes to does not depend on what is not seen.** -/
theorem heedless_apply (ha : a.AnswersAlike v) (op : Operation Value) : Heedless v (a.apply op) := by
  cases op with
  | create file content =>
    refine (heedless_needText file).bind fun path => (heedless_locate a path).bind fun target => ?_
    have hend : Heedless v (a.makeRoom target >>= fun _ => writeValue target.text content) :=
      (heedless_makeRoom a target).bind fun _ => heedless_writeValue _ _
    refine (heedless_isDirectory _).bind fun there => relates_unless ?_
    refine (heedless_pathExists _).bind fun there => ?_
    dsimp only
    split
    · exact (heedless_mayOverwrite ha path).bind fun agreed => relates_unless hend
    · exact hend
  | delete file =>
    refine (heedless_needText file).bind fun path => ?_
    exact (heedless_locateFile a path).bind fun target => heedless_change _ _
  | rename source target =>
    refine (heedless_needText source).bind fun source => ?_
    refine (heedless_locate a source).bind fun src => ?_
    refine (heedless_needText target).bind fun target => ?_
    refine (heedless_locate a target).bind fun dst => ?_
    refine (heedless_pathExists _).bind fun there => relates_unless ?_
    refine (heedless_pathExists _).bind fun taken => relates_unless ?_
    exact (heedless_makeRoom a dst).bind fun _ => heedless_move a _ _
  | edit file search replacement =>
    refine (heedless_needText file).bind fun path => ?_
    refine (heedless_locateFile a path).bind fun target => ?_
    refine (heedless_readText _).bind fun content => ?_
    refine (heedless_needText search).bind fun search => relates_unless ?_
    refine (heedless_needText replacement).bind fun replacement => ?_
    exact (heedless_change _ _).bind fun _ => heedless_say _ _
  | overwrite file content =>
    refine (heedless_needText file).bind fun path => ?_
    exact (heedless_locateFile a path).bind fun target => heedless_writeValue _ _

theorem heedless_note (a : Applier) (entry : Text) : Heedless v (a.note entry) := by
  unfold note
  split
  · exact Journal.heedless_write _ _
  · exact heedless_say _ _

/-- **A batch comes to the same whatever is not seen.** -/
theorem heedless_applyAll (ha : a.AnswersAlike v) (ops : List (Operation Value)) :
    Heedless v (a.applyAll ops) := by
  refine Relates.foldlM (fun r op _ => ?_) _
  have hresult : Heedless v (a.apply op *> (return none : Action (Option Failure))) := by
    rw [seqRight_eq_bind]
    exact (heedless_apply ha op).bind fun _ => relates_pure _
  refine (relates_rescue hresult fun f => relates_pure _).bind fun failure => ?_
  split
  · exact (heedless_note a _).bind fun _ => relates_pure _
  · exact (heedless_note a _).bind fun _ => relates_pure _

end Applier

end ReplyLedger
