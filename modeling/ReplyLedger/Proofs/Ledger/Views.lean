import ReplyLedger.Ledger.Reply
import ReplyLedger.Proofs.Applier.Transcript
import ReplyLedger.Proofs.Host.NewDirectories
import ReplyLedger.Proofs.Ledger.Order

/-!
# What a ledger does not look at

Desks resemble each other if their ledgers are the same and their hosts resemble each other
(`Desk.Resembles`). Opening a ledger and carrying out a reply come to the same on such desks, and
leave such desks (`Ledger.heedless_openIn`, `Ledger.heedless_applyReply`).

A ledger that is opened with a current task has changed nothing but that there are new directories
(`Ledger.gains_openIn`).
-/

namespace ReplyLedger

open Json

variable {v : Console.View}

/-- Two desks with the same ledger, on hosts that differ in what a view does not show only. -/
structure Desk.Resembles (v : Console.View) (d₁ d₂ : Desk) : Prop where
  host : d₁.host.Resembles v d₂.host
  ledger : d₁.ledger = d₂.ledger

namespace LedgerAction

variable {α : Type}

/-- A step that comes to the same whatever a view does not show. -/
abbrev Heedless (v : Console.View) (act : LedgerAction α) : Prop := Relates (Desk.Resembles v) act

theorem heedless_lift {act : Action α} (ha : Action.Heedless v act) :
    Heedless v (liftM act : LedgerAction α) := by
  intro d₁ d₂ h
  obtain ⟨hresult, hhost⟩ := ha d₁.host d₂.host h.host
  exact ⟨hresult, hhost, h.ledger⟩

/-- What is done with the ledger may depend on it. -/
theorem heedless_ledger_bind {f : Ledger → LedgerAction α} (hf : ∀ l, Heedless v (f l)) :
    Heedless v (ledger >>= f) := by
  intro d₁ d₂ h
  rw [outcome_bind_of_ok (outcome_ledger d₁), outcome_bind_of_ok (outcome_ledger d₂), h.ledger]
  exact hf _ d₁ d₂ h

theorem heedless_update (f : Ledger → Ledger) : Heedless v (update f) :=
  fun _ _ h => ⟨rfl, h.host, congrArg f h.ledger⟩

theorem heedless_needCurrent : Heedless v needCurrent := by
  intro d₁ d₂ h
  rw [outcome_needCurrent, outcome_needCurrent, ← h.ledger]
  rcases d₁.ledger.current with _ | t
  · exact ⟨rfl, h⟩
  · exact ⟨rfl, h⟩

end LedgerAction

namespace Ledger

open ReplyLedger.Action LedgerAction

/-! ## Opening a ledger -/

theorem heedless_load (path : FilePath) : Action.Heedless v (load path) := by
  refine (heedless_readText _).bind fun text => ?_
  split
  · exact relates_pure _
  · exact relates_fail _

theorem heedless_find (l : Ledger) (id : Text) : Action.Heedless v (l.find id) := by
  refine (heedless_isFile _).bind fun there => ?_
  split
  · exact heedless_load _
  · exact relates_fail _

theorem heedless_restore (l : Ledger) : Action.Heedless v l.restore := by
  unfold restore
  split
  · exact relates_pure _
  · refine (heedless_isFile _).bind fun there => ?_
    split
    · refine (heedless_readText _).bind fun text => ?_
      refine relates_rescue ((heedless_find l _).map some) fun f => ?_
      exact (heedless_say _ _).bind fun _ => (heedless_removeIfThere _).bind fun _ => relates_pure _
    · exact relates_pure _

theorem heedless_openIn (tasksDirectory : FilePath) (vcs : Vcs) (pointer : Option FilePath) :
    Action.Heedless v (openIn tasksDirectory vcs pointer) := by
  refine (heedless_ensureDirectories _).bind fun _ => ?_
  exact (heedless_restore _).bind fun _ => relates_pure _

/-- A current task that is restored has only been looked up. -/
theorem eq_of_restore {l : Ledger} {h h' : Host} {t : Task}
    (hr : outcome l.restore h = (.ok (some t), h')) : h' = h := by
  unfold restore at hr
  split at hr
  · simp at hr
  · rename_i path hp
    obtain ⟨there, k, hthere, hread⟩ := exists_of_outcome_bind hr
    obtain rfl : k = h := by simpa [hthere] using looks_isFile path.text h
    cases there with
    | false => simp at hread
    | true =>
      obtain ⟨text, k', htext, hfind⟩ := exists_of_outcome_bind hread
      obtain rfl : k' = k := by simpa [htext] using looks_readText path.text k
      have hlooks := looks_find (l := l) (Text.strip text) k'
      rw [outcome_rescue, outcome_map] at hfind
      rcases ho : outcome (l.find (Text.strip text)) k' with ⟨f | u, k''⟩
      · rw [ho] at hfind
        dsimp only [Except.map] at hfind
        split at hfind
        · obtain ⟨_, _, -, hremoved⟩ := exists_of_outcome_bind hfind
          obtain ⟨_, _, -, hend⟩ := exists_of_outcome_bind hremoved
          simp at hend
        · simp at hfind
      · rw [ho] at hfind hlooks
        obtain rfl : k'' = h' := (Prod.mk.inj hfind).2
        exact hlooks

/-- **A ledger that is opened with a current task has made directories at the most.** -/
theorem gains_openIn {tasksDirectory : FilePath} {vcs : Vcs} {pointer : Option FilePath}
    {l : Ledger} {h h' : Host} (ho : outcome (openIn tasksDirectory vcs pointer) h = (.ok l, h'))
    (hc : l.current ≠ none) :
    h.files.GainsDirectories (fun _ => True) h'.files ∧ h'.cwd = h.cwd := by
  obtain ⟨_, k, hmade, ho⟩ := exists_of_outcome_bind ho
  obtain ⟨current, k', hrestore, ho⟩ := exists_of_outcome_bind ho
  obtain ⟨hl, rfl⟩ := Prod.mk.inj ho
  obtain rfl := Except.ok.inj hl
  obtain ⟨t, rfl⟩ := Option.ne_none_iff_exists'.1 hc
  rw [eq_of_restore hrestore]
  have hgains := gains_ensureDirectories tasksDirectory h
  rwa [hmade] at hgains

/-! ## Carrying out a reply -/

theorem heedless_save (l : Ledger) (t : Task) : Action.Heedless v (l.save t) := heedless_change _ _

theorem heedless_saveCurrent (t : Task) : LedgerAction.Heedless v (saveCurrent t) :=
  (heedless_update _).bind fun _ => heedless_ledger_bind fun l => heedless_lift (heedless_save l t)

theorem heedless_recordOnCurrent (ops : List (Operation Value)) :
    LedgerAction.Heedless v (recordOnCurrent ops) := by
  refine heedless_needCurrent.bind fun t => ?_
  split
  · exact relates_pure _
  · exact (heedless_saveCurrent _).bind fun _ => relates_pure _

theorem heedless_readReply (reply : Text) : Action.Heedless v (readReply reply) :=
  (Relates.forM fun _ => heedless_say _ _).bind fun _ => relates_pure _

/-- **What a reply comes to does not depend on what is not seen.** -/
theorem heedless_applyReply {a : Applier} (ha : a.AnswersAlike v) (reply : Text) :
    LedgerAction.Heedless v (applyReply a reply) := by
  refine heedless_needCurrent.bind fun _ => ?_
  refine (heedless_lift (heedless_readReply reply)).bind fun ops => ?_
  split
  · exact (heedless_lift (heedless_say _ _)).bind fun _ => relates_pure _
  · refine (heedless_lift (a.heedless_applyAll ha ops)).bind fun report => ?_
    dsimp only
    split
    · exact (heedless_recordOnCurrent _).bind fun _ => relates_pure _
    · exact relates_pure _

end Ledger

end ReplyLedger
