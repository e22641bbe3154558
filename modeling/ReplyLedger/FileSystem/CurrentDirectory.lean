import ReplyLedger.FileSystem.Basic

/-!
# The current directory

The directory that relative paths are seen from. It is held on to, and not looked up by its location:
when it is moved, or a directory above it is, it goes along; and when it is removed it stays the
current one, although nothing is in it any more and its location may be taken by another directory.

A `Displacement` is a change of a tree that does one or the other. `isDirectory_displace_move` and
`isDirectory_displace_removal` say that the current directory is a directory of the tree for as long
as it is not removed.
-/

namespace ReplyLedger

/-- The directory that relative paths are seen from. -/
inductive CurrentDirectory
  /-- A directory of the tree. -/
  | present (p : Location)
  /-- A directory that has been removed, with the nearest directory above it that has not, and the
  number of the removed ones between the two. -/
  | removed (above : Location) (between : Nat)
  deriving DecidableEq, Repr

/-- A change of a tree that takes entries from their locations. -/
inductive Displacement
  /-- An entry, with all below it, is given another location. -/
  | move (source target : Location)
  /-- A location is removed, with all below it. -/
  | removal (p : Location)
  deriving DecidableEq, Repr

/-- The file system after a displacement. -/
def FileSystem.displace (fs : FileSystem) : Displacement → FileSystem
  | .move source target => fs.move source target
  | .removal p => fs.removeTree p

namespace CurrentDirectory

/-- The current directory after a displacement. -/
def displace : CurrentDirectory → Displacement → CurrentDirectory
  | .present p, .move source target => .present (FileSystem.relocate source target p)
  | .removed above between, .move source target =>
    .removed (FileSystem.relocate source target above) between
  | .present p, .removal q =>
    if q.isPrefixOf p then .removed q.dropLast (p.length - q.length) else .present p
  | .removed above between, .removal q =>
    if q.isPrefixOf above then .removed q.dropLast (between + 1 + (above.length - q.length))
    else .removed above between

/-- A move takes the current directory along. -/
theorem isDirectory_displace_move {fs : FileSystem} {source target p : Location}
    (h : fs.CanMove source target) (hp : fs.IsDirectory p) :
    (fs.displace (.move source target)).IsDirectory (FileSystem.relocate source target p) := by
  by_cases hs : source <+: p
  · obtain ⟨r, rfl⟩ := hs
    rw [FileSystem.relocate_append]
    exact (FileSystem.entryAt_move_append h r).trans hp
  · have ht : ¬ target <+: p := by
      rintro ⟨r, rfl⟩
      by_cases hr : r = []
      · exact h.2.1.free (by simpa [hr] using hp)
      · exact absurd hp (by simp [FileSystem.IsDirectory,
          FileSystem.entryAt_append_eq_none h.2.1.free hr])
    rw [FileSystem.relocate_of_not_below hs]
    exact (FileSystem.entryAt_move h ht).trans (by rw [if_neg hs, hp])

/-- A removal of another tree leaves the current directory where it is. -/
theorem isDirectory_displace_removal {fs : FileSystem} {q p : Location} (hq : q ≠ [])
    (h : ¬ q <+: p) (hp : fs.IsDirectory p) : (fs.displace (.removal q)).IsDirectory p :=
  (fs.entryAt_removeTree hq p).trans (by rw [if_neg h, hp])

end CurrentDirectory

end ReplyLedger
