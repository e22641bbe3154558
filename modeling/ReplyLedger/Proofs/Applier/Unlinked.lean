import ReplyLedger.Proofs.Applier.Containment
import ReplyLedger.Proofs.FileSystem.Links

/-!
# Workspaces without links

In a workspace without links every location is settled, whatever links there are outside of it
(`Unlinked.settled`), and changes below its root keep the links of the file system as they are
(`Unlinked.sameLinks`). So a path of an operation stands for one and the same location for as long
as changes are confined to the workspace (`Workspace.locationOf_of_confined`).
-/

namespace ReplyLedger

namespace FileSystem

variable {fs gs : FileSystem} {root p q : Location}

/-- On the way to a location below a directory, what is no directory is below it, too. -/
theorem below_of_not_isDirectory (hr : fs.IsDirectory root) (hb : Below root p) (hq : q <+: p)
    (hd : ¬ fs.IsDirectory q) : Below root q := by
  rcases List.prefix_or_prefix_of_prefix hb.1 hq with hrq | ⟨t, rfl⟩
  · exact ⟨hrq, fun he => hd (he ▸ hr)⟩
  · by_cases ht : t = []
    · exact absurd (by simpa [ht] using hr) hd
    · simp [IsDirectory, entryAt_append_eq_none hd ht] at hr

/-- A directory with no link in it, however deep. -/
structure Unlinked (fs : FileSystem) (root : Location) : Prop where
  isDirectory : fs.IsDirectory root
  not_link : ∀ p target, root <+: p → fs.entryAt p ≠ some (.link target)

namespace Unlinked

theorem of_linkCount (hd : fs.IsDirectory root) (h : fs.linkCount = 0) : fs.Unlinked root := by
  refine ⟨hd, fun p target _ hl => ?_⟩
  have hp : p ≠ [] := by
    rintro rfl
    simp [entryAt_nil] at hl
  have hle : [p].length ≤ fs.linkCount :=
    length_le_linkCount (by simp) fun link hlink => ⟨target, by simp_all⟩
  simp [h] at hle

theorem settled (h : fs.Unlinked root) (hp : root <+: p) (hs : ∀ s ∈ p, isPlain s) :
    fs.Settled p := by
  refine ⟨hs, fun q target hq => ?_⟩
  rcases List.prefix_or_prefix_of_prefix hp hq with hr | hr
  · exact h.not_link q target hr
  · exact (Settled.of_isDirectory h.isDirectory).not_link q target hr

/-- The root is a directory wherever the same stands there. -/
theorem isDirectory_congr (h : fs.Unlinked root) (he : gs.entryAt root = fs.entryAt root) :
    gs.IsDirectory root := he.trans h.isDirectory

theorem congr (h : fs.Unlinked root) (he : ∀ q, root <+: q → gs.entryAt q = fs.entryAt q) :
    gs.Unlinked root :=
  ⟨h.isDirectory_congr (he root (List.prefix_refl root)),
    fun p target hp hl => h.not_link p target hp ((he p hp).symm.trans hl)⟩

theorem put (h : fs.Unlinked root) (hp : Below root p) {e : Entry}
    (he : ∀ target, e ≠ .link target) : (fs.put p e).Unlinked root := by
  refine ⟨h.isDirectory_congr (entryAt_put_of_ne e hp.2.symm), fun q target hq => ?_⟩
  by_cases ha : fs.Accepts p
  · rw [entryAt_put ha]
    split
    · simpa using he target
    · exact h.not_link q target hq
  · rw [FileSystem.put, dif_neg ha]
    exact h.not_link q target hq

theorem erase (h : fs.Unlinked root) (hp : Below root p) : (fs.erase p).Unlinked root := by
  refine ⟨h.isDirectory_congr (entryAt_erase_of_ne hp.2.symm), fun q target hq => ?_⟩
  by_cases hqp : q = p
  · by_cases hd : fs.IsDirectory p
    · rw [FileSystem.erase, dif_neg (by simpa using hd)]
      exact h.not_link q target hq
    · rw [entryAt_erase hd, if_pos hqp]
      simp
  · rw [entryAt_erase_of_ne hqp]
    exact h.not_link q target hq

theorem move (h : fs.Unlinked root) (hp : Below root p) (hq : Below root q) :
    (fs.move p q).Unlinked root := by
  have hroot : (fs.move p q).entryAt root = fs.entryAt root :=
    entryAt_move_of_not_below (fun hr => hp.2 (hr.eq_of_length_le hp.1.length_le))
      fun hr => hq.2 (hr.eq_of_length_le hq.1.length_le)
  refine ⟨h.isDirectory_congr hroot, fun r target hr => ?_⟩
  by_cases hc : fs.CanMove p q
  · by_cases hqr : q <+: r
    · obtain ⟨t, rfl⟩ := hqr
      rw [entryAt_move_append hc]
      exact h.not_link _ target (hp.1.trans (List.prefix_append p t))
    · rw [entryAt_move hc hqr]
      split
      · simp
      · exact h.not_link r target hr
  · rw [FileSystem.move, dif_neg hc]
    exact h.not_link r target hr

/-- Confined changes keep the links, if they make none. -/
theorem sameLinks (h : fs.Unlinked root) (hc : Confined root fs gs) (hg : gs.Unlinked root) :
    fs.SameLinks gs := by
  intro p target
  by_cases hp : Below root p
  · exact iff_of_false (h.not_link p target hp.1) (hg.not_link p target hp.1)
  · rw [hc p hp]

end Unlinked

end FileSystem

/-! ## Locations of paths -/

namespace Workspace

open FileSystem

variable {w : Workspace} {fs gs : FileSystem} {path : Text} {p : Location}

/-- The location that the path of an operation stands for in a file system. -/
def locationOf (w : Workspace) (fs : FileSystem) (path : Text) : Except Failure Location :=
  match fs.resolve ((FilePath.ofNames w.root).join (.ofText (canonicalPath path))).names with
  | .error .badName => .error (.invalidPath path Failure.badName.message)
  | .error (.loop found) => .error (.invalidPath path (Failure.linkLoop found.text).message)
  | .ok found =>
    if w.covers found && found.names ≠ w.root then .ok found.names else .error (.outside path)

theorem outcome_resolveIn (w : Workspace) (path : Text) (h : Host) :
    outcome (w.resolveIn path) h = (w.locationOf h.files path, h) := by
  rw [resolveIn, outcome_bind_of_ok (outcome_get h), locationOf]
  rcases h.files.resolve _ with fault | found
  · cases fault <;> rfl
  · dsimp only
    split <;> rfl

/-- Where a path stands for a location, it was found there. -/
theorem locationOf_eq_ok_iff : w.locationOf fs path = .ok p ↔ ∃ found : FilePath,
    fs.resolve ((FilePath.ofNames w.root).join (.ofText (canonicalPath path))).names = .ok found ∧
      w.covers found ∧ found.names ≠ w.root ∧ found.names = p := by
  rw [locationOf]
  rcases fs.resolve _ with fault | found
  · cases fault <;> simp
  · by_cases hc : w.covers found && found.names ≠ w.root
    · simp only [if_pos hc, Except.ok.injEq, exists_eq_left']
      simp only [Bool.and_eq_true, decide_eq_true_eq] at hc
      simp [hc.1, hc.2]
    · simp only [if_neg hc, Except.ok.injEq, exists_eq_left']
      simp only [Bool.and_eq_true, decide_eq_true_eq] at hc
      constructor
      · simp
      · rintro ⟨h1, h2, -⟩
        exact absurd ⟨h1, h2⟩ hc

/-- A path that stands for no location is refused for the sake of the operation. -/
theorem endsOperation_of_locationOf {f : Failure} (h : w.locationOf fs path = .error f) :
    f.endsOperation := by
  unfold locationOf at h
  split at h
  · obtain rfl := Except.error.inj h
    rfl
  · obtain rfl := Except.error.inj h
    rfl
  · split at h
    · simp at h
    · obtain rfl := Except.error.inj h
      rfl

/-- **Without links in the workspace, a path stands for a settled location strictly below the
root.** -/
theorem below_of_locationOf (hu : fs.Unlinked w.root) (h : w.locationOf fs path = .ok p) :
    Below w.root p ∧ fs.Settled p := by
  obtain ⟨found, hf, hc, hne, rfl⟩ := locationOf_eq_ok_iff.1 h
  simp only [covers, Bool.and_eq_true, decide_eq_true_eq, List.isPrefixOf_iff_prefix] at hc
  refine ⟨⟨hc.2, hne⟩, hu.settled hc.2 (isPlain_of_resolve (fun s hs => ?_) hf)⟩
  exact Applier.not_mem_names_join hu.isDirectory _ hs

/-- **What a path stands for does not depend on changes in the workspace.** -/
theorem locationOf_of_confined (hu : fs.Unlinked w.root) (hc : Confined w.root fs gs)
    (hg : gs.Unlinked w.root) (h : w.locationOf fs path = .ok p) : w.locationOf gs path = .ok p := by
  have hb := below_of_locationOf hu h
  obtain ⟨found, hf, hcov, hne, rfl⟩ := locationOf_eq_ok_iff.1 h
  refine locationOf_eq_ok_iff.2 ⟨found, ?_, hcov, hne, rfl⟩
  exact resolve_of_settled (hu.sameLinks hc hg) hf (hg.settled hb.1.1 hb.2.isPlain)

end Workspace

end ReplyLedger
