import ReplyLedger.Proofs.FileSystem.FreePlaces
import ReplyLedger.Proofs.Host.Directory
import ReplyLedger.Proofs.Host.NewDirectories

/-!
# What making directories comes to

When a directory has been made with those above it that were missing, either nothing has changed,
or the path leads to a directory with nothing in it (`made_of_ensureDirectoriesFrom`). For the
directories are made one in the other, whatever links the path leads through. So where a path has led
nowhere, it still does when the directories above it have been made
(`leadsNowhere_of_ensureDirectories`).
-/

namespace ReplyLedger

namespace Action

open FileSystem

variable {h h' : Host} {path : FilePath} {d : Location} {name : Text}

/-! ## One directory -/

/-- What is said to be a directory is one. -/
theorem status_of_isDirectory {path : Text}
    (ho : (outcome (isDirectory path) h).1 = .ok true) :
    h.files.status h.cwd path = .ok .directory := by
  rw [isDirectory, outcome_bind] at ho
  rcases hst : outcome (status? path) h with ⟨_ | found, k⟩
  · simp [hst] at ho
  · obtain rfl : found = some .directory := by simpa [hst] using ho
    exact status_of_status? (by rw [hst])

/-- A directory is made, or nothing is changed, and it is there if that is no failure. -/
theorem ensureDirectory_cases (path : Text) (h : Host) :
    (∃ files, h.files.makeDirectory h.cwd path = .ok files ∧
        outcome (ensureDirectory path) h = (.ok (), { h with files })) ∨
      (outcome (ensureDirectory path) h).2 = h ∧
        ((outcome (ensureDirectory path) h).1 = .ok () →
          h.files.status h.cwd path = .ok .directory) := by
  rw [ensureDirectory, outcome_rescue, makeDirectory]
  by_cases hn : hasNul path
  · rw [outcome_change_of_hasNul hn]
    exact .inr ⟨rfl, fun ho => by simp [Failure.isSystem] at ho⟩
  · rw [outcome_change (by simpa using hn)]
    rcases hm : h.files.makeDirectory h.cwd path with error | files
    swap
    · exact .inl ⟨files, rfl, rfl⟩
    dsimp only
    split
    swap
    · exact .inr ⟨rfl, fun ho => by simp at ho⟩
    have hlooks := looks_isDirectory path h
    rw [outcome_bind]
    rcases hd : outcome (isDirectory path) h with ⟨f | there, k⟩
    · rw [hd] at hlooks
      exact .inr ⟨hlooks, fun ho => by simp at ho⟩
    · rw [hd] at hlooks
      cases there with
      | true => exact .inr ⟨hlooks, fun _ => status_of_isDirectory (by rw [hd])⟩
      | false => exact .inr ⟨hlooks, fun ho => by simp at ho⟩

/-- A directory is made, and empty, or nothing has changed. -/
theorem made_of_ensureDirectory (hp : path.IsProper)
    (ho : outcome (ensureDirectory path.text) h = (.ok (), h')) :
    h' = h ∨ ∃ d, h'.files.LeadsToEmpty h'.cwd path d := by
  rcases ensureDirectory_cases path.text h with ⟨files, hm, ho'⟩ | ⟨hsame, -⟩
  · obtain rfl : h' = { h with files } := by simpa using ho.symm.trans ho'
    obtain ⟨directory, name, hf, rfl⟩ := exists_vacant_of_makeDirectory hm
    by_cases ha : h.files.Accepts (directory ++ [name])
    · exact .inr ⟨_, leadsToEmpty_put hp hf ha⟩
    · exact .inl (by rw [FileSystem.put, dif_neg ha])
  · exact .inl (by rw [← hsame, ho])

/-- In an empty directory, the directory is made. -/
theorem made_of_ensureDirectory_child (hl : h.files.LeadsToEmpty h.cwd path d)
    (hp : isPlain name) (ho : outcome (ensureDirectory (path.child name).text) h = (.ok (), h')) :
    ∃ d, h'.files.LeadsToEmpty h'.cwd (path.child name) d := by
  by_cases hn : isName name
  · rw [outcome_ensureDirectory_vacant hl.toLeads hn (hl.empty name)] at ho
    obtain rfl : { h with files := h.files.put (d ++ [name]) .directory } = h' := by simpa using ho
    exact ⟨_, leadsToEmpty_put (hl.isProper.child hp) (hl.find_vacant hn .kept (hl.empty name))
      (accepts_of_vacant hl.isDirectory hn (hl.empty name))⟩
  · -- a name that is too long is refused, and nothing is found under it
    have hlong : isTooLong name := by simpa [isName, hp] using hn
    rcases ensureDirectory_cases (path.child name).text h with ⟨files, hm, -⟩ | ⟨-, hthere⟩
    · rw [FileSystem.makeDirectory, hl.find_tooLong hp hlong] at hm
      cases hm
    · exact absurd (hthere (by rw [ho])) (hl.leadsNowhere_child hp _)

/-! ## With the directories above it -/

/-- **A directory that is made with those above it that were missing is empty**, unless nothing has
changed. -/
theorem made_of_ensureDirectoriesFrom {anchor : FilePath.Anchor} {names : List Text}
    (hn : ∀ s ∈ names, isPlain s)
    (ho : outcome (ensureDirectoriesFrom anchor names) h = (.ok (), h')) :
    h' = h ∨ ∃ d, h'.files.LeadsToEmpty h'.cwd ⟨anchor, names.reverse⟩ d := by
  have proper {names : List Text} (hn : ∀ s ∈ names, isPlain s) :
      FilePath.IsProper ⟨anchor, names.reverse⟩ :=
    FilePath.isProper_of_isPlain fun s hs => hn s (List.mem_reverse.1 hs)
  induction names generalizing h' with
  | nil => exact made_of_ensureDirectory (proper hn) ho
  | cons name above ih =>
    have hchild : FilePath.mk anchor (name :: above).reverse =
        FilePath.child ⟨anchor, above.reverse⟩ name := by simp [FilePath.child]
    rw [ensureDirectoriesFrom, outcome_rescue] at ho
    rw [hchild] at ho ⊢
    have hproper : (FilePath.child ⟨anchor, above.reverse⟩ name).IsProper := hchild ▸ proper hn
    rcases hfirst : outcome (ensureDirectory (FilePath.child ⟨anchor, above.reverse⟩ name).text) h
      with ⟨f | _, k⟩
    · obtain rfl : k = h := by
        rcases ensureDirectory_cases _ h with ⟨_, -, ho'⟩ | ⟨hsame, -⟩
        · rw [hfirst] at ho'
          cases ho'
        · rwa [hfirst] at hsame
      rw [hfirst] at ho
      dsimp only at ho
      split at ho
      · obtain ⟨_, h₁, habove, hlast⟩ := exists_of_outcome_bind ho
        rcases ih (fun s hs => hn s (List.mem_cons_of_mem name hs)) habove with rfl | ⟨d, hd⟩
        · rw [hfirst] at hlast
          cases hlast
        · exact .inr (made_of_ensureDirectory_child hd (hn name List.mem_cons_self) hlast)
      · cases ho
    · rw [hfirst] at ho
      obtain rfl : k = h' := (Prod.mk.inj ho).2
      exact made_of_ensureDirectory hproper hfirst

/-- **Where a path has led nowhere, it leads nowhere when the directories above it have been made.** -/
theorem leadsNowhere_of_ensureDirectories {q : Location} (hq : ∀ s ∈ q, isPlain s) (h0 : q ≠ [])
    (hs : h.files.LeadsNowhere h.cwd (FilePath.ofNames q).text)
    (ho : outcome (ensureDirectories (FilePath.ofNames q).parent) h = (.ok (), h')) :
    h'.files.LeadsNowhere h'.cwd (FilePath.ofNames q).text := by
  obtain ⟨above, name, rfl⟩ := (List.eq_nil_or_concat q).resolve_left h0
  rw [List.concat_eq_append] at hq hs ho ⊢
  rw [FilePath.parent_ofNames, List.dropLast_concat] at ho
  have habove : ∀ s ∈ above.reverse, isPlain s := fun s hm =>
    hq s (List.mem_append_left _ (List.mem_reverse.1 hm))
  rcases made_of_ensureDirectoriesFrom habove ho with rfl | ⟨d, hd⟩
  · exact hs
  · rw [List.reverse_reverse] at hd
    exact hd.leadsNowhere_child (hq name (by simp))

end Action

end ReplyLedger
