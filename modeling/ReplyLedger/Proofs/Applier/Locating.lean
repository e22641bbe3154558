import ReplyLedger.Proofs.Applier.Effects

/-!
# What the location of a path is

A path of an operation leads a way from the root of the file system (`Workspace.way`). The location
that it stands for is always strictly below the root of the workspace, by its names; it is the end of
the way exactly if the way meets no loop, and no link is on it or at it then
(`Workspace.resolved_of_locates`). So its names alone say where a call at it acts.

A way that meets a loop has no end. Its rest is read as it is written then, and a `..` may lead
from the looping link to another one: such a path is located, at a link that the calls follow
(`Applier.linked_loopingHost`).
-/

namespace ReplyLedger

open FileSystem

namespace Workspace

variable {w : Workspace} {h : Host} {path : Text} {q : Location}

/-- The way that the path of an operation leads. -/
def way (w : Workspace) (path : Text) : Way :=
  ([], ((FilePath.ofNames w.root).join (.ofText (canonicalPath path))).names)

theorem not_mem_way (hr : ∀ s ∈ w.root, '/' ∉ s) : ∀ s ∈ (w.way path).2, '/' ∉ s :=
  fun _ hs => Applier.not_mem_names_join_of hr _ hs

/-- By its names, the location of a path is strictly below the root. -/
theorem below_of_locates (hl : w.Locates h path q) : Below w.root q := by
  obtain ⟨found, -, hcov, hne, rfl⟩ := locationOf_eq_ok_iff.1 (locates_iff.1 hl)
  simp only [covers, Bool.and_eq_true, List.isPrefixOf_iff_prefix] at hcov
  exact ⟨hcov.2, hne⟩

theorem ne_nil_of_locates (hl : w.Locates h path q) : q ≠ [] := by
  rintro rfl
  obtain ⟨hpre, hne⟩ := below_of_locates hl
  exact hne (List.prefix_nil.1 hpre).symm

/-- The location of a path is made of plain names, whatever links there are. -/
theorem isPlain_of_locates (hr : ∀ s ∈ w.root, '/' ∉ s) (hl : w.Locates h path q) :
    ∀ s ∈ q, isPlain s := by
  obtain ⟨found, hfound, -, -, rfl⟩ := locationOf_eq_ok_iff.1 (locates_iff.1 hl)
  exact isPlain_of_resolve (not_mem_way hr) hfound

/-- If the way of a path meets no loop, the location of the path is its settled end. -/
theorem end_of_locates (hr : ∀ s ∈ w.root, '/' ∉ s) (hl : w.Locates h path q)
    (hf : ¬ h.files.MeetsLoop (w.way path)) :
    h.files.Settled q ∧ h.files.Steps (w.way path) (q, []) := by
  obtain ⟨found, hfound, -, -, rfl⟩ := locationOf_eq_ok_iff.1 (locates_iff.1 hl)
  exact (resolve_eq_ok_of_way hf (not_mem_way hr) hfound).2

/-- **A located path is resolved, unless its way meets a loop.** The location is strictly below the
root. It is the end of the way exactly if the way meets no loop. No link is on it or at it then, and
from wherever it is looked up, and whether or not a last link would be followed, what is found is
what stands there. -/
theorem resolved_of_locates (w : Workspace) {h : Host} {path : Text} {q : Location}
    (hr : ∀ s ∈ w.root, '/' ∉ s) (hl : w.Locates h path q) :
    Below w.root q ∧
      (h.files.Steps (w.way path) (q, []) ↔ ¬ h.files.MeetsLoop (w.way path)) ∧
      (¬ h.files.MeetsLoop (w.way path) →
        (∀ p target, p <+: q → h.files.entryAt p ≠ some (.link target)) ∧
        ∀ cwd last, h.files.Sighting q (h.files.find cwd last (FilePath.ofNames q).text)) := by
  have hend := end_of_locates hr hl
  refine ⟨below_of_locates hl, ⟨Steps.not_meetsLoop, fun hf => (hend hf).2⟩, fun hf => ?_⟩
  exact ⟨(hend hf).1.not_link, fun cwd last => sighting_find cwd last (hend hf).1⟩

end Workspace

namespace Applier

open ReplyLedger.Action Workspace

/-! ## A link that leads to itself -/

/-- A workspace `/w` with a directory `a` that holds a file, a link `d` to it, a link `l` to itself,
and a link `x` to the file `/o`. -/
def loopingHost : Host := .ofFiles <|
  ((((((FileSystem.empty.put [['w']] .directory).put [['o']] (.file [])).put
    [['w'], ['a']] .directory).put [['w'], ['a'], ['f']] (.file [])).put
    [['w'], ['d']] (.link ['a'])).put [['w'], ['l']] (.link ['l'])).put [['w'], ['x']]
      (.link ['/', 'o'])

/-- The link to itself does not matter to a path that does not lead through it. -/
theorem resolved_loopingHost :
    let w : Workspace := ⟨[['w']]⟩
    let q : Location := [['w'], ['a'], ['f']]
    (∀ s ∈ w.root, '/' ∉ s) ∧ w.Locates loopingHost "d/f" q ∧ Below w.root q ∧
      ¬ loopingHost.files.MeetsLoop (w.way "d/f") ∧
      (∀ p target, p <+: q → loopingHost.files.entryAt p ≠ some (.link target)) ∧
      ∀ cwd last,
        loopingHost.files.Sighting q (loopingHost.files.find cwd last (FilePath.ofNames q).text) := by
  intro w q
  have hr : ∀ s ∈ w.root, '/' ∉ s := by decide
  have hl : w.Locates loopingHost "d/f" q := rfl
  have hd : loopingHost.files.entryAt ([['w']] ++ [['d']]) = some (.link ['a']) := by decide
  have hw : loopingHost.files.Settled ([] ++ [['w']]) := .of_isDirectory (by decide)
  have hf : loopingHost.files.Settled ([['w']] ++ [['a'], ['f']]) :=
    .of_entryAt (e := .file []) (by decide) (by simp)
  have hend : loopingHost.files.Steps (w.way "d/f") (q, []) :=
    (hw.steps [['d'], ['f']]).trans (.head (.link hd) (hf.steps []))
  obtain ⟨hb, hiff, hsettled⟩ := resolved_of_locates w hr hl
  have hloop := hiff.1 hend
  exact ⟨hr, hl, hb, hloop, (hsettled hloop).1, (hsettled hloop).2⟩

/-- A path that goes up from the link to itself is located at a link, and the file which that leads to
is overwritten, outside of the workspace. -/
theorem linked_loopingHost :
    let a : Applier := { workspace := ⟨[['w']]⟩ }
    let q : Location := [['w'], ['x']]
    let op : Operation Json.Value := .overwrite (.text "l/../x") (.text ['n'])
    a.workspace.Locates loopingHost "l/../x" q ∧
      loopingHost.files.entryAt q = some (.link ['/', 'o']) ∧
      (outcome (a.apply op) loopingHost).1 = .ok () ∧
      (outcome (a.apply op) loopingHost).2.files.entryAt q = some (.link ['/', 'o']) ∧
      (outcome (a.apply op) loopingHost).2.files.entryAt [['o']] =
        some (.file (Utf8.encode ['n'])) := by
  intro a q op
  exact ⟨rfl, by decide, rfl, by decide, by decide⟩

end Applier

end ReplyLedger
