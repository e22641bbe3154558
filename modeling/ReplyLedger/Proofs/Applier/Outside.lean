import ReplyLedger.Proofs.Applier.Batches
import ReplyLedger.Proofs.Host.Journal

/-!
# Files outside the workspace

A file is kept outside the workspace (`Host.KeepsFile`) if it is not in it, and its path leads there
whatever is changed in the workspace. Operations leave it alone (`KeepsFile.confined`), writing it
changes it and nothing else (`KeepsFile.outcome_writeText`), and so does the journal that is kept in
such a file (`KeepsFile.outcome_write`).
-/

namespace ReplyLedger

open FileSystem

/-- What is not strictly below `root` is kept, but for files. -/
def FileSystem.KeepsBeyond (root : Location) (fs gs : FileSystem) : Prop :=
  ∀ q e, ¬ Below root q → fs.entryAt q = some e → (∀ bytes, e ≠ .file bytes) →
    gs.entryAt q = some e

namespace FileSystem.KeepsBeyond

variable {root : Location} {fs gs hs : FileSystem}

theorem trans (h : fs.KeepsBeyond root gs) (h' : gs.KeepsBeyond root hs) :
    fs.KeepsBeyond root hs := fun q e hq he hf => h' q e hq (h q e hq he hf) hf

theorem of_confined (h : Confined root fs gs) : fs.KeepsBeyond root gs :=
  fun q _ hq he _ => (h q hq).trans he

theorem of_keeps (h : fs.Keeps gs) : fs.KeepsBeyond root gs := fun q e _ he hf => h q e he hf

end FileSystem.KeepsBeyond

/-- A path is that of a file which is there or can be made, at a location that is not below `root`,
and leads there as long as what is kept outside does. -/
structure Host.KeepsFile (root : Location) (h : Host) (path : FilePath) (p : Location) : Prop where
  outside : ¬ Below root p
  free : ∀ e, h.files.entryAt p = some e → ∃ bytes, e = .file bytes
  leads : ∃ directory d name, path = directory.child name ∧ p = d ++ [name] ∧ isName name ∧
    ∀ files cwd, h.files.KeepsBeyond root files → h.cwd.Stays root cwd → files.Leads cwd directory d

namespace Host.KeepsFile

variable {root p : Location} {h h' : Host} {path : FilePath}

/-- A file in a directory that is given by its location, and is not below the root. -/
theorem of_names {d : Location} {name : Text} (hd : h.files.IsDirectory d) (ho : ¬ root <+: d)
    (hp : ¬ Below root (d ++ [name])) (hn : isName name)
    (hf : ∀ e, h.files.entryAt (d ++ [name]) = some e → ∃ bytes, e = .file bytes) :
    h.KeepsFile root ((FilePath.ofNames d).child name) (d ++ [name]) := by
  refine ⟨hp, hf, _, d, name, rfl, rfl, hn, fun files cwd hk _ => ?_⟩
  exact .ofNames (hk d _ (fun hb => ho hb.1) hd (by simp))

/-- The file is kept by what keeps the way to it. -/
theorem after (hk : h.KeepsFile root path p) (hb : h.files.KeepsBeyond root h'.files)
    (hc : h.cwd.Stays root h'.cwd)
    (hf : ∀ e, h'.files.entryAt p = some e → ∃ bytes, e = .file bytes) :
    h'.KeepsFile root path p := by
  obtain ⟨directory, d, name, hpath, hp, hn, hl⟩ := hk.leads
  exact ⟨hk.outside, hf, directory, d, name, hpath, hp, hn,
    fun files cwd hb' hc' => hl files cwd (hb.trans hb') (hc.trans hc')⟩

/-- What is confined to the workspace leaves the file alone. -/
theorem confined (hk : h.KeepsFile root path p) (hc : Confined root h.files h'.files)
    (hcwd : h.cwd.Stays root h'.cwd) : h'.KeepsFile root path p :=
  hk.after (.of_confined hc) hcwd fun e he => hk.free e ((hc p hk.outside).symm.trans he)

theorem console (hk : h.KeepsFile root path p) (console : Console) :
    Host.KeepsFile root { h with console } path p :=
  ⟨hk.outside, hk.free, hk.leads⟩

theorem accepts (hk : h.KeepsFile root path p) : h.files.Accepts p := by
  obtain ⟨directory, d, name, -, rfl, hn, hl⟩ := hk.leads
  have hleads := hl h.files h.cwd (fun _ _ _ he _ => he) (.refl root h.cwd)
  rcases he : h.files.entryAt (d ++ [name]) with _ | e
  · exact accepts_of_vacant hleads.isDirectory hn he
  · obtain ⟨bytes, rfl⟩ := hk.free e he
    exact accepts_of_entryAt he (by simp)

/-- Writing the file changes it and nothing else. -/
theorem outcome_writeText (hk : h.KeepsFile root path p) (t : Text) :
    outcome (Action.writeText path.text t) h =
      (.ok (), { h with files := h.files.put p (.file (Utf8.encode t)) }) := by
  obtain ⟨directory, d, name, rfl, rfl, hn, hl⟩ := hk.leads
  exact Action.outcome_writeText (hl h.files h.cwd (fun _ _ _ he _ => he) (.refl root h.cwd)) hn
    hk.free t

/-- What changes another file outside, or makes one, leaves the workspace as it is. -/
theorem unlinked (hk : h.KeepsFile root path p) (hu : h.files.Unlinked root) (bytes : Bytes) :
    (h.files.put p (.file bytes)).Unlinked root := by
  refine hu.congr fun q hq => entryAt_put_of_ne _ ?_
  rintro rfl
  by_cases he : root = q
  · exact hk.accepts.free (he ▸ hu.isDirectory)
  · exact hk.outside ⟨hq, fun h => he h.symm⟩

/-- The path of a journal outside leads to the place of its file. -/
theorem reaches {j : Journal} (hk : h.KeepsFile root j.path p) : j.Reaches p h := by
  obtain ⟨directory, d, name, hpath, rfl, hn, hl⟩ := hk.leads
  have hleads := hl h.files h.cwd (fun _ _ _ he _ => he) (.refl root h.cwd)
  have hparent : j.path.parent = directory := by
    rw [hpath]
    exact congrArg (FilePath.mk directory.anchor) List.dropLast_concat
  refine ⟨⟨d, hparent ▸ hleads⟩, hpath ▸ Action.hasNul_child hleads hn, ?_, hk.accepts, hk.free⟩
  rw [hpath]
  rcases he : h.files.entryAt (d ++ [name]) with _ | e
  · exact ⟨_, hleads.find_vacant hn .made he, rfl⟩
  · obtain ⟨bytes, rfl⟩ := hk.free e he
    exact ⟨_, hleads.find_entry .made he (by simp), rfl⟩

/-- The entry of a journal goes behind what the file holds. -/
theorem outcome_write {j : Journal} (hk : h.KeepsFile root j.path p) (entry : Text) :
    outcome (j.write entry) h = (.ok (), { h with
      files := h.files.put p (.file ((h.files.fileAt p).getD [] ++
        Utf8.encode (Journal.line h.journalReading entry ++ ['\n'])))
      console := h.console.emit (.message .debug entry)
      journalClock := h.journalClock.tail }) := hk.reaches.outcome_write entry

/-- Another file outside is kept when this one is written. -/
theorem put {q : Location} {path' : FilePath} (hq : h.KeepsFile root path' q)
    (hk : h.KeepsFile root path p) (bytes : Bytes) (console : Console) (clock : List Timestamp) :
    Host.KeepsFile root
      { h with files := h.files.put p (.file bytes), console, journalClock := clock } path' q := by
  refine hq.after (.of_keeps (keeps_put hk.free)) (.refl root h.cwd) fun e he => ?_
  dsimp only at he
  rw [entryAt_put hk.accepts] at he
  split at he
  · exact ⟨bytes, (Option.some.inj he).symm⟩
  · exact hq.free e he

end Host.KeepsFile

end ReplyLedger
