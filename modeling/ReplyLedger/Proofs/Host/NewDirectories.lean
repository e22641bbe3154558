import ReplyLedger.Proofs.FileSystem.NewDirectories
import ReplyLedger.Proofs.Host.Contracts

/-!
# Making directories

A contract for making one directory makes one for making it unless it is there
(`meets_ensureDirectory_of`), and one for making it with those above it that are missing
(`meets_ensureDirectoriesFrom_of`). Whatever the path, and whether it succeeds or fails, nothing but
directories are made (`meets_ensureDirectories_gains`).
-/

namespace ReplyLedger.Action

open FileSystem

variable {α : Type} {P R : Host → Prop} {K : Failure → Prop} {before : FileSystem}

/-- A directory that is not made is there already, or the failure to make it is left. -/
theorem meets_ensureDirectory_of {path : Text}
    (hm : Meets P (makeDirectory path) (fun _ => R) (fun f h => K f ∧ P h))
    (hthere : ∀ h, P h → outcome (isDirectory path) h = (.ok true, h) → R h)
    (hk : FailsWith K (isDirectory path)) :
    Meets P (ensureDirectory path) (fun _ => R) (fun f h => K f ∧ P h) := by
  refine hm.rescue (fun f _ => ?_) fun _ _ hh _ => hh
  have hlook : Meets P (isDirectory path) (fun there h => P h ∧
      outcome (isDirectory path) h = (.ok there, h)) (fun f h => K f ∧ P h) :=
    (((looks_isDirectory path).meets (endsOnly_isDirectory path)).failsWith hk).mono
      (fun _ hh => hh) (fun _ _ hh => hh) fun _ _ hh => ⟨hh.1, hh.2.2⟩
  rintro h ⟨hf, hp⟩
  refine hlook.bind (fun there => ?_) h hp
  cases there with
  | true => exact meets_pure fun h hh => hthere h hh.1 hh.2
  | false => exact meets_fail fun h hh => ⟨hf, hh.1⟩

/-- A directory is made with those above it, if each of them can be made for itself. -/
theorem meets_ensureDirectoriesFrom_of {anchor : FilePath.Anchor} {names : List Text}
    {D : List Text → Host → Prop}
    (hd : ∀ above, above <:+ names →
      Meets P (ensureDirectory (FilePath.text ⟨anchor, above.reverse⟩))
        (fun _ h => P h ∧ D above h) (fun f h => K f ∧ P h)) :
    Meets P (ensureDirectoriesFrom anchor names) (fun _ h => P h ∧ D names h)
      (fun f h => K f ∧ P h) := by
  induction names with
  | nil => exact hd [] (List.suffix_refl _)
  | cons name above ih =>
    have hlast := hd (name :: above) (List.suffix_refl _)
    have habove := ih fun names hn => hd names (hn.trans (List.suffix_cons name above))
    refine hlast.rescue (fun f _ => ?_) fun _ _ hh _ => hh
    exact (habove.mono (fun _ hh => hh.2) (fun _ _ hh => hh.1) fun _ _ hh => hh).bind fun _ => hlast

/-! ## Failures that are no refusals -/

/-- Whatever failure the action ends with, it is no refusal. -/
abbrev NeverRefuses (act : Action α) : Prop := FailsWith (fun f => f.isRefusal = false) act

theorem neverRefuses_call (path : Text) (f : FileSystem → CurrentDirectory → Except Errno α) :
    NeverRefuses (call path f) := by
  intro h fault hf
  by_cases hn : FileSystem.hasNul path
  · rw [outcome_call_of_hasNul hn] at hf
    obtain rfl : .badName = fault := Except.error.inj hf
    rfl
  · rw [outcome_call (by simpa using hn)] at hf
    rcases hc : f h.files h.cwd with e | a
    · rw [hc] at hf
      obtain rfl : .system e path = fault := Except.error.inj hf
      rfl
    · rw [hc] at hf
      exact nomatch hf

theorem neverRefuses_change (path : Text)
    (f : FileSystem → CurrentDirectory → Except Errno FileSystem) : NeverRefuses (change path f) :=
  (neverRefuses_call path f).bind fun _ _ _ hf => nomatch hf

theorem neverRefuses_isDirectory (path : Text) : NeverRefuses (isDirectory path) := by
  refine FailsWith.bind ?_ fun _ => failsWith_pure _
  unfold status?
  split
  · exact failsWith_pure _
  · refine FailsWith.bind (fun _ _ hf => nomatch hf) fun h => ?_
    split
    · exact failsWith_pure _
    · exact failsWith_pure _
    · exact failsWith_pure _
    · exact failsWith_pure _
    · exact failsWith_fail rfl

/-! ## Making directories only -/

/-- What making one directory keeps is kept by making a directory with those above it. -/
theorem meets_ensureDirectories_of
    (hm : ∀ path, Meets P (makeDirectory path) (fun _ => P) (fun f h => K f ∧ P h))
    (hk : ∀ path, FailsWith K (isDirectory path)) (path : FilePath) :
    Meets P (ensureDirectories path) (fun _ => P) (fun f h => K f ∧ P h) := by
  refine (meets_ensureDirectoriesFrom_of (D := fun _ => P) fun above _ => ?_).mono
    (fun _ hh => hh) (fun _ _ hh => hh.1) fun _ _ hh => hh
  exact (meets_ensureDirectory_of (hm _) (fun _ hh _ => hh) (hk _)).mono
    (fun _ hh => hh) (fun _ _ hh => ⟨hh, hh⟩) fun _ _ hh => hh

/-- **Making directories, at whatever path, makes directories only**, and is never refused. -/
theorem meets_ensureDirectories_gains (path : FilePath) :
    Meets (fun h => before.GainsDirectories (fun _ => True) h.files) (ensureDirectories path)
      (fun _ h => before.GainsDirectories (fun _ => True) h.files)
      (fun f h => f.isRefusal = false ∧ before.GainsDirectories (fun _ => True) h.files) :=
  meets_ensureDirectories_of (fun path =>
    ((meets_change fun _ _ hh hc => gainsDirectories_makeDirectory hc hh).failsWith
      (neverRefuses_change path _)).mono (fun _ hh => hh) (fun _ _ hh => hh)
        fun _ _ hh => ⟨hh.1, hh.2.2⟩) neverRefuses_isDirectory path

/-- The current directory stays the same, whatever making directories comes to. -/
theorem gains_ensureDirectories (path : FilePath) (h : Host) :
    h.files.GainsDirectories (fun _ => True) (outcome (ensureDirectories path) h).2.files ∧
      (outcome (ensureDirectories path) h).2.cwd = h.cwd := by
  have hmeets := meets_ensureDirectories_of (K := fun _ => True)
    (P := fun k => h.files.GainsDirectories (fun _ => True) k.files ∧ k.cwd = h.cwd)
    (fun path => (meets_change fun k files hk hc =>
      ⟨gainsDirectories_makeDirectory hc hk.1, hk.2⟩).mono (fun _ hk => hk) (fun _ _ hk => hk)
        fun _ _ hk => ⟨trivial, hk.2⟩) (fun _ _ _ _ => trivial) path h ⟨.refl _ _, rfl⟩
  rcases ho : outcome (ensureDirectories path) h with ⟨f | _, h'⟩
  · rw [ho] at hmeets
    exact hmeets.2
  · rw [ho] at hmeets
    exact hmeets

end ReplyLedger.Action
