import ReplyLedger.Git.Commands
import ReplyLedger.Proofs.Host.Outcome

/-!
# Actions that spare the files

Showing and asking, taking ids and times, and calling the version-control program leave the files and
the current directory alone, and use up the ids and times that were there (`Spares`). What is taken
is one of these, or made up (`outcome_newId`, `outcome_now`).
-/

namespace ReplyLedger

/-- The second host has the files of the first, and no ids and times but those of the first. -/
structure Host.Spared (h h' : Host) : Prop where
  files : h'.files = h.files
  cwd : h'.cwd = h.cwd
  ids : h'.ids.given ⊆ h.ids.given
  clock : h'.clock ⊆ h.clock
  journalTime : h'.journalTime = h.journalTime

namespace Host.Spared

variable {h₁ h₂ h₃ : Host}

theorem refl (h : Host) : h.Spared h := ⟨rfl, rfl, List.Subset.refl _, List.Subset.refl _, rfl⟩

theorem trans (h : h₁.Spared h₂) (h' : h₂.Spared h₃) : h₁.Spared h₃ where
  files := h'.files.trans h.files
  cwd := h'.cwd.trans h.cwd
  ids := List.Subset.trans h'.ids h.ids
  clock := List.Subset.trans h'.clock h.clock
  journalTime := h'.journalTime.trans h.journalTime

end Host.Spared

namespace Action

variable {α β : Type}

/-- An action that spares the files, whatever it comes to. -/
def Spares (act : Action α) : Prop := ∀ h : Host, h.Spared (outcome act h).2

theorem Spares.spared {act : Action α} (ha : Spares act) {h h' : Host} {r : Except Failure α}
    (ho : outcome act h = (r, h')) : h.Spared h' := by
  have hh := ha h
  rwa [ho] at hh

theorem Looks.spares {act : Action α} (ha : Looks act) : Spares act := by
  intro h
  rw [ha h]
  exact .refl h

theorem Spares.bind {act : Action α} {f : α → Action β} (ha : Spares act)
    (hf : ∀ a, Spares (f a)) : Spares (act >>= f) := by
  intro h
  have hh := ha h
  rw [outcome_bind]
  generalize outcome act h = o at hh ⊢
  rcases o with ⟨_ | a, h'⟩
  · exact hh
  · exact hh.trans (hf a h')

theorem Spares.rescue {act : Action α} {catches : Failure → Bool} {handler : Failure → Action α}
    (ha : Spares act) (hf : ∀ f, Spares (handler f)) : Spares (rescue act catches handler) := by
  intro h
  have hh := ha h
  rw [outcome_rescue]
  generalize outcome act h = o at hh ⊢
  rcases o with ⟨f | a, h'⟩
  · dsimp only
    split
    · exact hh.trans (hf f h')
    · exact hh
  · exact hh

theorem spares_pure (a : α) : Spares (pure a : Action α) := (looks_pure a).spares

theorem spares_say (level : Level) (text : Text) : Spares (say level text) :=
  fun _ => ⟨rfl, rfl, List.Subset.refl _, List.Subset.refl _, rfl⟩

theorem spares_ask (confirm : Confirm) (question : Text) : Spares (ask confirm question) := by
  intro h
  rw [ask, outcome_bind_of_ok (outcome_get h)]
  rcases confirm question h.console with ⟨_ | _, c⟩ <;>
    exact ⟨rfl, rfl, List.Subset.refl _, List.Subset.refl _, rfl⟩

/-! ## Ids and times -/

/-- A new id is one of those to hand out, or made up. -/
theorem outcome_newId (h : Host) : ∃ id h', outcome newId h = (.ok id, h') ∧ h.Spared h' ∧
    ((∃ given ∈ h.ids.given, id = given.take idLength) ∨
      ∃ n, id = (Text.ofHexPadded idLength n).take idLength) := by
  rw [newId, outcome_bind_of_ok (outcome_get h)]
  rcases hg : h.ids.given with _ | ⟨id, given⟩
  · refine ⟨_, _, rfl, ?_, .inr ⟨h.ids.madeUp + 1, rfl⟩⟩
    exact ⟨rfl, rfl, List.Subset.refl _, List.Subset.refl _, rfl⟩
  · refine ⟨_, _, rfl, ?_, .inl ⟨id, List.mem_cons_self, rfl⟩⟩
    refine ⟨rfl, rfl, ?_, List.Subset.refl _, rfl⟩
    rw [hg]
    exact List.subset_cons_self id given

/-- The time of the moment is one of those to come, or the time of the journal. -/
theorem outcome_now (h : Host) : ∃ t h', outcome now h = (.ok t, h') ∧ h.Spared h' ∧
    (t ∈ h.clock ∨ t = h.journalTime) := by
  rw [now, outcome_bind_of_ok (outcome_get h)]
  rcases hc : h.clock with _ | ⟨t, _ | ⟨next, rest⟩⟩
  · exact ⟨_, _, rfl, .refl h, .inr rfl⟩
  · exact ⟨_, _, rfl, .refl h, .inl List.mem_cons_self⟩
  · refine ⟨_, _, rfl, ?_, .inl List.mem_cons_self⟩
    refine ⟨rfl, rfl, List.Subset.refl _, ?_, rfl⟩
    rw [hc]
    exact List.subset_cons_self t (next :: rest)

/-- Taking an id uses it up, or counts it. -/
theorem ids_newId_ne (h : Host) : (outcome newId h).2.ids ≠ h.ids := by
  rw [newId, outcome_bind_of_ok (outcome_get h)]
  rcases hg : h.ids.given with _ | ⟨id, given⟩
  · intro he
    exact absurd (congrArg IdSource.madeUp he) (Nat.succ_ne_self _)
  · intro he
    exact absurd ((congrArg IdSource.given he).trans hg) (List.cons_ne_self id given).symm

theorem ids_now (h : Host) : (outcome now h).2.ids = h.ids := by
  rw [now, outcome_bind_of_ok (outcome_get h)]
  rcases h.clock with _ | ⟨t, _ | ⟨next, rest⟩⟩ <;> rfl

theorem git_newId (h : Host) : (outcome newId h).2.git = h.git := by
  rw [newId, outcome_bind_of_ok (outcome_get h)]
  rcases h.ids.given with _ | ⟨id, given⟩ <;> rfl

theorem git_now (h : Host) : (outcome now h).2.git = h.git := by
  rw [now, outcome_bind_of_ok (outcome_get h)]
  rcases h.clock with _ | ⟨t, _ | ⟨next, rest⟩⟩ <;> rfl

/-! ## Version control -/

theorem spares_run (arguments : List Text) (directory : Option Text) :
    Spares (Git.run arguments directory) := by
  intro h
  rw [Git.run, outcome_bind_of_ok (outcome_get h)]
  rcases hr : h.git.replies.headD (.ended 0 [] []) with ⟨status, output, errors⟩ | _
  · exact ⟨rfl, rfl, List.Subset.refl _, List.Subset.refl _, rfl⟩
  · exact ⟨rfl, rfl, List.Subset.refl _, List.Subset.refl _, rfl⟩

theorem spares_isRepository (directory : Option Text) : Spares (Git.isRepository directory) :=
  ((spares_run _ directory).bind fun _ => spares_pure _).rescue fun _ => spares_pure _

theorem spares_inRepository (directory : Option Text) {act : Action Bool} (ha : Spares act) :
    Spares (Git.inRepository directory act) := by
  refine (spares_isRepository directory).bind fun there => ?_
  split
  · exact ha
  · exact (spares_say _ _).bind fun _ => spares_pure _

theorem spares_commitAll (directory : Option Text) (message : Text) :
    Spares (Git.commitAll directory message) := by
  refine (spares_run _ directory).bind fun (status, _, errors) => ?_
  dsimp only
  split
  · exact (spares_say _ _).bind fun _ => spares_pure _
  · refine (spares_run _ directory).bind fun (status, output, errors) => ?_
    dsimp only
    split
    · exact (spares_say _ _).bind fun _ => spares_pure _
    · exact spares_pure _

theorem spares_discardChanges (directory : Option Text) :
    Spares (Git.discardChanges directory) := by
  refine (spares_run _ directory).bind fun (status, _, errors) => ?_
  dsimp only
  split
  · exact (spares_say _ _).bind fun _ => spares_pure _
  · exact spares_pure _

end Action

end ReplyLedger
