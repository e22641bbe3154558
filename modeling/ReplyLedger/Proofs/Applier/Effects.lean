import ReplyLedger.Proofs.Applier.Unlinked
import ReplyLedger.Proofs.FileSystem.Files
import ReplyLedger.Proofs.Host.Contracts

/-!
# What operations change

In a workspace without links, an operation that is carried out changes regular files at the locations
of its paths only, and below them if it moves a directory (`Workspace.Covers`); an operation that is
not carried out changes none, though it may have made directories (`meets_apply`). So a batch without
a journal comes to its end whenever its questions are answered, and every file that it has changed is
covered by an operation that it reports as applied (`changed_applyAll`).
-/

namespace ReplyLedger

open FileSystem

/-! ## The current directory -/

namespace CurrentDirectory

/-- Where a current directory is, or the nearest directory above it that has not been removed. -/
def place : CurrentDirectory → Location
  | .present p => p
  | .removed above _ => above

/-- A current directory that is not strictly below `root` has stayed as it was. -/
def Stays (root : Location) (cwd cwd' : CurrentDirectory) : Prop :=
  ¬ Below root cwd.place → cwd' = cwd

theorem Stays.refl (root : Location) (cwd : CurrentDirectory) : cwd.Stays root cwd := fun _ => rfl

theorem Stays.trans {root : Location} {c₁ c₂ c₃ : CurrentDirectory} (h : c₁.Stays root c₂)
    (h' : c₂.Stays root c₃) : c₁.Stays root c₃ := by
  intro hc
  obtain rfl := h hc
  exact h' hc

theorem stays_move {root p : Location} (hp : Below root p) (q : Location)
    (cwd : CurrentDirectory) : cwd.Stays root (cwd.displace (.move p q)) := by
  intro hc
  cases cwd with
  | present c => exact congrArg present (relocate_of_not_below fun h => hc (hp.extend h))
  | removed c between =>
    exact congrArg (removed · between) (relocate_of_not_below fun h => hc (hp.extend h))

end CurrentDirectory

/-! ## Changes below a root -/

namespace Host

variable {root p q : Location} {before h after : Host} {T T' : Location → Prop}

/-- Nothing has been done but to make directories below the root. -/
structure Made (root : Location) (before after : Host) : Prop where
  confined : Confined root before.files after.files
  unlinked : after.files.Unlinked root
  cwd : after.cwd = before.cwd
  entryAt : ∀ q, after.files.entryAt q = before.files.entryAt q ∨
    before.files.entryAt q = none ∧ after.files.entryAt q = some .directory

/-- Nothing has changed but below the root, and no regular file but those at locations with the
property `T`. -/
structure Changed (root : Location) (T : Location → Prop) (before after : Host) : Prop where
  confined : Confined root before.files after.files
  unlinked : after.files.Unlinked root
  cwd : before.cwd.Stays root after.cwd
  fileAt : ∀ q, after.files.fileAt q ≠ before.files.fileAt q → T q

theorem Changed.mono (h : before.Changed root T after) (hT : ∀ q, T q → T' q) :
    before.Changed root T' after :=
  ⟨h.confined, h.unlinked, h.cwd, fun q hq => hT q (h.fileAt q hq)⟩

theorem Changed.refl (hu : h.files.Unlinked root) : h.Changed root T h :=
  ⟨.refl root h.files, hu, .refl root h.cwd, fun _ hq => absurd rfl hq⟩

theorem Changed.trans (h₁ : before.Changed root T h) (h₂ : h.Changed root T after) :
    before.Changed root T after := by
  refine ⟨h₁.confined.trans h₂.confined, h₂.unlinked, h₁.cwd.trans h₂.cwd, fun q hq => ?_⟩
  by_cases hh : after.files.fileAt q = h.files.fileAt q
  · exact h₁.fileAt q (hh ▸ hq)
  · exact h₂.fileAt q hh

/-- What is shown and asked changes nothing. -/
theorem Changed.console (h₁ : before.Changed root T after) (console : Console) :
    before.Changed root T { after with console } := ⟨h₁.confined, h₁.unlinked, h₁.cwd, h₁.fileAt⟩

namespace Made

theorem refl (hu : h.files.Unlinked root) : h.Made root h :=
  ⟨.refl root h.files, hu, rfl, fun _ => .inl rfl⟩

theorem of_eq (hu : before.files.Unlinked root) (h : after = before) : before.Made root after :=
  h.symm ▸ refl hu

theorem console (h₁ : before.Made root after) (console : Console) :
    before.Made root { after with console } := ⟨h₁.confined, h₁.unlinked, h₁.cwd, h₁.entryAt⟩

theorem settled (h₁ : before.Made root after) (hb : root <+: p) (hp : ∀ s ∈ p, isPlain s) :
    after.files.Settled p := h₁.unlinked.settled hb hp

theorem fileAt (h₁ : before.Made root after) (q : Location) :
    after.files.fileAt q = before.files.fileAt q := by
  rcases h₁.entryAt q with he | ⟨hb, ha⟩
  · exact fileAt_congr he
  · rw [FileSystem.fileAt, FileSystem.fileAt, hb, ha]

theorem changed (h₁ : before.Made root after) : before.Changed root T after :=
  ⟨h₁.confined, h₁.unlinked, fun _ => h₁.cwd, fun q hq => absurd (h₁.fileAt q) hq⟩

/-- What was there is still there. -/
theorem entryAt_eq (h₁ : before.Made root after) {e : Entry}
    (he : before.files.entryAt p = some e) : after.files.entryAt p = some e := by
  rcases h₁.entryAt p with h | ⟨h, -⟩
  · exact h.trans he
  · simp [h] at he

theorem putDirectory (h₁ : before.Made root after) (hb : Below root p)
    (hp : after.files.entryAt p = none) :
    before.Made root { after with files := after.files.put p .directory } := by
  refine ⟨h₁.confined.put hb _, h₁.unlinked.put hb (by simp), h₁.cwd, fun q => ?_⟩
  by_cases ha : after.files.Accepts p
  · rw [entryAt_put ha]
    split
    · rename_i hq
      subst hq
      rcases h₁.entryAt q with h | ⟨h, -⟩
      · exact .inr ⟨h ▸ hp, rfl⟩
      · exact .inr ⟨h, rfl⟩
    · exact h₁.entryAt q
  · rw [FileSystem.put, dif_neg ha]
    exact h₁.entryAt q

theorem putFile (h₁ : before.Made root after) (hb : Below root p) (bytes : Bytes) :
    before.Changed root (· = p) { after with files := after.files.put p (.file bytes) } := by
  refine ⟨h₁.confined.put hb _, h₁.unlinked.put hb (by simp), fun _ => h₁.cwd, fun q hq => ?_⟩
  by_contra hne
  exact hq ((fileAt_congr (entryAt_put_of_ne _ hne)).trans (h₁.fileAt q))

theorem erase (h₁ : before.Made root after) (hb : Below root p) :
    before.Changed root (· = p) { after with files := after.files.erase p } := by
  refine ⟨h₁.confined.erase hb, h₁.unlinked.erase hb, fun _ => h₁.cwd, fun q hq => ?_⟩
  by_contra hne
  exact hq ((fileAt_congr (entryAt_erase_of_ne hne)).trans (h₁.fileAt q))

theorem move (h₁ : before.Made root after) (hp : Below root p) (hq : Below root q) :
    before.Changed root
      (fun r => r = p ∨ r = q ∨ after.files.IsDirectory p ∧ (p <+: r ∨ q <+: r))
      (after.displace (.move p q)) := by
  refine ⟨h₁.confined.move hp hq, h₁.unlinked.move hp hq, ?_, fun r hr => ?_⟩
  · rw [← h₁.cwd]
    exact CurrentDirectory.stays_move hp q after.cwd
  · rw [← h₁.fileAt r] at hr
    exact of_fileAt_move hr

end Made

end Host

/-! ## Calls below a root -/

namespace Action

variable {root p q : Location} {before : Host}

/-- What may have been done when an operation is given up. -/
abbrev GivenUp (root : Location) (before : Host) (f : Failure) (h : Host) : Prop :=
  f.endsOperation ∧ before.Made root h

theorem meets_makeDirectory (hb : Below root p) (hp : ∀ s ∈ p, isPlain s) (hq : q <+: p) :
    Meets (before.Made root) (makeDirectory (FilePath.ofNames q).text)
      (fun _ => before.Made root) (GivenUp root before) := by
  refine meets_change fun h files hh hc => ?_
  obtain ⟨-, hfree, rfl⟩ := makeDirectory_eq_ok ((hh.settled hb.1 hp).above hq) hc
  have hd : ¬ h.files.IsDirectory q := by simp [IsDirectory, hfree]
  exact hh.putDirectory (below_of_not_isDirectory hh.unlinked.isDirectory hb hq hd) hfree

theorem meets_ensureDirectory (hb : Below root p) (hp : ∀ s ∈ p, isPlain s) (hq : q <+: p) :
    Meets (before.Made root) (ensureDirectory (FilePath.ofNames q).text)
      (fun _ => before.Made root) (GivenUp root before) := by
  refine (meets_makeDirectory hb hp hq).rescue (fun f _ => ?_) fun f h hh _ => hh
  refine (looks_isDirectory _).meets_bind (endsOnly_isDirectory _) (fun _ _ hf hh => ⟨hf, hh.2⟩)
    fun there => ?_
  cases there with
  | true => exact meets_pure fun h hh => hh.1.2
  | false => exact meets_fail fun h hh => hh.1

theorem meets_ensureDirectoriesFrom (hb : Below root p) (hp : ∀ s ∈ p, isPlain s)
    {names : List Text} (hq : names.reverse <+: p) :
    Meets (before.Made root) (ensureDirectoriesFrom .root names)
      (fun _ => before.Made root) (GivenUp root before) := by
  induction names with
  | nil => exact meets_ensureDirectory hb hp hq
  | cons name above ih =>
    have habove : above.reverse <+: p := by
      rw [List.reverse_cons] at hq
      exact (List.prefix_append _ _).trans hq
    refine (meets_ensureDirectory hb hp hq).rescue (fun f _ => ?_) fun f h hh _ => hh
    refine Meets.bind (M := fun _ => before.Made root) ?_ fun _ => meets_ensureDirectory hb hp hq
    exact (ih habove).mono (fun _ hh => hh.2) (fun _ _ hh => hh) fun _ _ hh => hh

/-- Making the directories above a location below the root does nothing else. -/
theorem meets_ensureDirectories (hb : Below root p) (hp : ∀ s ∈ p, isPlain s) :
    Meets (before.Made root) (ensureDirectories (FilePath.ofNames p).parent)
      (fun _ => before.Made root) (GivenUp root before) := by
  rw [FilePath.parent_ofNames, ensureDirectories]
  refine meets_ensureDirectoriesFrom hb hp ?_
  rw [List.reverse_reverse]
  exact List.dropLast_prefix p

theorem meets_writeText (hb : Below root p) (hp : ∀ s ∈ p, isPlain s) (t : Text) :
    Meets (before.Made root) (writeText (FilePath.ofNames p).text t)
      (fun _ => before.Changed root (· = p)) (GivenUp root before) := by
  refine meets_change fun h files hh hc => ?_
  obtain ⟨-, bytes, rfl, -⟩ := changeFile_eq_ok (hh.settled hb.1 hp) hc
  exact hh.putFile hb _

/-- A status is that of the entry at the location. -/
theorem entryAt_of_status {fs : FileSystem} {cwd : CurrentDirectory} {e : Entry}
    (hs : fs.Settled p) (h : fs.status cwd (FilePath.ofNames p).text = .ok e) :
    fs.entryAt p = some e := by
  have hsight := sighting_find cwd .followed hs
  rw [status] at h
  generalize fs.find cwd .followed (FilePath.ofNames p).text = found at h hsight
  cases hsight with
  | entry he =>
    obtain rfl := Except.ok.inj h
    exact he
  | vacant => simp [bind, Except.bind] at h
  | refused => simp [bind, Except.bind] at h

/-- What is said to be there is there. -/
theorem entryAt_of_pathExists {h : Host} (hs : h.files.Settled p)
    (ho : outcome (pathExists (FilePath.ofNames p).text) h = (.ok true, h)) :
    ∃ e, h.files.entryAt p = some e :=
  (exists_status_of_pathExists (by rw [ho])).imp fun _ he => entryAt_of_status hs he

end Action

/-! ## Operations -/

namespace Workspace

/-- A path of an operation stands for a location. -/
def Locates (w : Workspace) (h : Host) (path : Text) (p : Location) : Prop :=
  outcome (w.resolveIn path) h = (.ok p, h)

theorem locates_iff {w : Workspace} {h : Host} {path : Text} {p : Location} :
    w.Locates h path p ↔ w.locationOf h.files path = .ok p := by
  rw [Locates, outcome_resolveIn, Prod.mk.injEq]
  exact and_iff_left rfl

/-- Whether an operation moves a directory. -/
def MovesDirectory (w : Workspace) (h : Host) (op : Operation Json.Value) : Prop :=
  ∃ source target p, op = .rename (.text source) target ∧ w.Locates h source p ∧
    h.files.IsDirectory p

/-- Whether a location is that of a path of an operation, or below it if the operation moves a
directory. -/
def Covers (w : Workspace) (h : Host) (op : Operation Json.Value) (q : Location) : Prop :=
  ∃ path p, .text path ∈ op.paths ∧ w.Locates h path p ∧
    (q = p ∨ p <+: q ∧ w.MovesDirectory h op)

end Workspace

namespace Applier

open ReplyLedger.Action Workspace Json

variable {a : Applier} {before : Host} {path : Text} {T : Location → Prop} {α : Type}
variable {Q : α → Host → Prop} {E : Failure → Host → Prop}

/-- Whether every question is answered. -/
def Answers (a : Applier) : Prop :=
  ∀ confirm, a.confirm = some confirm → ∀ question console, (confirm question console).1 ≠ none

/-- How an operation fails: in a way that ends only itself, by a question that meets the end of the
input, or since the machine cannot nest calls as deep as it takes. -/
def MayFail (a : Applier) (f : Failure) : Prop :=
  f.endsOperation ∨ f = .interrupted ∧ ¬ a.Answers ∨ f = .tooDeep ∧ a.nesting ≠ none

/-- What ends an operation at the most fails as operations do. -/
theorem mayFail {act : Action α} (ha : EndsOnly act) : FailsWith a.MayFail act :=
  ha.mono fun _ hf => .inl hf

/-- If questions are answered, and calls nested as deep as they go, an operation ends only itself. -/
theorem MayFail.endsOperation {f : Failure} (hf : a.MayFail f) (ha : a.Answers)
    (hd : f = .tooDeep → a.nesting = none) : f.endsOperation :=
  hf.resolve_right fun h => h.elim (fun hn => hn.2 ha) fun hn => hn.2 (hd hn.1)

/-- What may have been done when an operation is not carried out. -/
abbrev Unfinished (a : Applier) (before : Host) (f : Failure) (h : Host) : Prop :=
  a.MayFail f ∧ before.Made a.workspace.root h

/-- What is given up ends only the operation. -/
theorem unfinished {P : Host → Prop} {act : Action α}
    (h : Meets P act Q (GivenUp a.workspace.root before)) : Meets P act Q (a.Unfinished before) :=
  h.mono (fun _ hh => hh) (fun _ _ hh => hh) fun _ _ hh => ⟨.inl hh.1, hh.2⟩

/-- A depth that is not enough is one of a machine that cannot nest calls as deep as they go. -/
theorem failsWith_checkDepth (a : Applier) (directory : FilePath) :
    FailsWith (fun f => f = .tooDeep ∧ a.nesting ≠ none) (a.checkDepth directory) := by
  intro h f hf
  rw [checkDepth, outcome_bind_of_ok (outcome_get h)] at hf
  split at hf
  · cases hf
  · rename_i hn
    refine ⟨(Except.error.inj hf).symm, fun hnone => hn ?_⟩
    rw [canNest, hnone]
    rfl

/-- A path is located, or the operation is given up before anything has been changed. -/
theorem meets_locate_bind {f : FilePath → Action α} (he : ∀ f, f.endsOperation → E f before)
    (hf : ∀ p, a.workspace.Locates before path p → Meets (· = before) (f (.ofNames p)) Q E) :
    Meets (· = before) (a.locate path >>= f) Q E := by
  rintro h rfl
  rw [locate, bind_map_left, outcome_bind, outcome_resolveIn]
  rcases hl : a.workspace.locationOf h.files path with f | p
  · exact he f (endsOperation_of_locationOf hl)
  · exact hf p (locates_iff.2 hl) h rfl

theorem meets_locate_bind_of_unlinked (hu : before.files.Unlinked a.workspace.root)
    {f : FilePath → Action α} (he : ∀ f, f.endsOperation → E f before)
    (hf : ∀ p, a.workspace.Locates before path p → Below a.workspace.root p →
      (∀ s ∈ p, isPlain s) → Meets (· = before) (f (.ofNames p)) Q E) :
    Meets (· = before) (a.locate path >>= f) Q E := by
  refine meets_locate_bind he fun p hl => ?_
  obtain ⟨hb, hs⟩ := below_of_locationOf hu (locates_iff.1 hl)
  exact hf p hl hb hs.isPlain

/-- A text stands for itself. -/
theorem needText_text (t : Text) : needText (.text t) = pure t := rfl

theorem failsWith_mayOverwrite (a : Applier) (path : Text) :
    FailsWith a.MayFail (a.mayOverwrite path) := by
  unfold mayOverwrite
  split
  · rename_i confirm hconfirm
    intro h f hf
    rw [ask, outcome_bind_of_ok (outcome_get h)] at hf
    rcases hc : confirm path h.console with ⟨_ | answer, console⟩
    · obtain rfl : .interrupted = f := by
        rw [hc] at hf
        exact Except.error.inj hf
      refine .inr (.inl ⟨rfl, fun ha => ha confirm hconfirm path h.console ?_⟩)
      rw [hc]
    · rw [hc] at hf
      cases hf
  · exact failsWith_pure false

/-- A question only changes the console. -/
theorem meets_mayOverwrite (a : Applier) (path : Text) :
    Meets (before.Made a.workspace.root) (a.mayOverwrite path)
      (fun _ => before.Made a.workspace.root) (a.Unfinished before) := by
  refine Meets.failsWith ?_ (failsWith_mayOverwrite a path)
  unfold mayOverwrite
  split
  · rename_i confirm hconfirm
    intro h hh
    rw [outcome_ask]
    rcases (confirm path h.console).1 with _ | answer
    · exact hh.console _
    · exact hh.console _
  · exact meets_pure fun _ hh => hh

/-- The directories above a target are made, if calls can be nested as deep as that takes. -/
theorem meets_makeRoom {p : Location} (hb : Below a.workspace.root p) (hp : ∀ s ∈ p, isPlain s) :
    Meets (before.Made a.workspace.root) (a.makeRoom (FilePath.ofNames p))
      (fun _ => before.Made a.workspace.root) (a.Unfinished before) := by
  refine Meets.bind ?_ fun _ => unfinished (meets_ensureDirectories hb hp)
  exact (looks_checkDepth a _).keeps.failsWith
    ((failsWith_checkDepth a _).mono fun _ hf => .inr (.inr hf))

theorem meets_create (hu : before.files.Unlinked a.workspace.root)
    (hT : ∀ p, a.workspace.Locates before path p → T p) (content : Text) :
    Meets (· = before) (a.create path (.text content))
      (fun _ => before.Changed a.workspace.root T) (a.Unfinished before) := by
  have hmade : ∀ h, h = before → before.Made a.workspace.root h := fun h hh => .of_eq hu hh
  refine meets_locate_bind_of_unlinked hu (fun f hf => ⟨.inl hf, .refl hu⟩) fun p hl hb hp => ?_
  have hend : Meets (before.Made a.workspace.root)
      (a.makeRoom (FilePath.ofNames p) >>= fun _ =>
        writeValue (FilePath.ofNames p).text (.text content))
      (fun _ => before.Changed a.workspace.root T) (a.Unfinished before) :=
    (meets_makeRoom hb hp).bind fun _ => (unfinished (meets_writeText hb hp content)).mono
      (fun _ hh => hh) (fun _ _ hh => hh.mono fun _ hq => hq ▸ hT p hl) fun _ _ hh => hh
  refine Meets.mono (P := before.Made a.workspace.root) ?_ hmade (fun _ _ hh => hh) fun _ _ hh => hh
  refine (looks_isDirectory _).meets_bind (endsOnly_isDirectory _) (fun _ _ hf hh => ⟨.inl hf, hh⟩)
    fun there => ?_
  refine Meets.unless (fun _ h hh => ⟨.inl rfl, hh.1⟩) fun _ => ?_
  refine (looks_pathExists _).meets_bind (endsOnly_pathExists _) (fun _ _ hf hh => ⟨.inl hf, hh.1⟩)
    fun there => ?_
  refine Meets.mono (P := before.Made a.workspace.root) ?_ (fun _ hh => hh.1.1) (fun _ _ hh => hh)
    fun _ _ hh => hh
  dsimp only
  split
  · refine (meets_mayOverwrite a path).bind fun agreed => ?_
    exact Meets.unless (fun _ h hh => ⟨.inl rfl, hh⟩) fun _ => hend
  · exact hend

/-- A file is located as any path is, and looked at. -/
theorem meets_locateFile_bind (hu : before.files.Unlinked a.workspace.root)
    {f : FilePath → Action Unit} {R : Unit → Host → Prop}
    (hf : ∀ p, a.workspace.Locates before path p → Below a.workspace.root p →
      (∀ s ∈ p, isPlain s) →
        Meets (before.Made a.workspace.root) (f (.ofNames p)) R (GivenUp a.workspace.root before)) :
    Meets (· = before) (a.locateFile path >>= f) R (GivenUp a.workspace.root before) := by
  rw [locateFile, bind_assoc]
  refine meets_locate_bind_of_unlinked hu (fun f hf => ⟨hf, .refl hu⟩) fun p hl hb hp => ?_
  rw [bind_assoc]
  refine (looks_isFile _).meets_bind (endsOnly_isFile _) (fun _ _ hf hh => ⟨hf, .of_eq hu hh⟩)
    fun there => ?_
  cases there with
  | true =>
    rw [if_pos rfl, pure_bind]
    exact (hf p hl hb hp).mono (fun _ hh => .of_eq hu hh.1) (fun _ _ hh => hh) fun _ _ hh => hh
  | false =>
    refine Meets.bind (M := fun _ _ => False) (meets_fail fun h hh => ⟨rfl, ?_⟩) fun _ h hh => hh.elim
    exact .of_eq hu hh.1

theorem meets_delete (hu : before.files.Unlinked a.workspace.root)
    (hT : ∀ p, a.workspace.Locates before path p → T p) :
    Meets (· = before) (a.delete path) (fun _ => before.Changed a.workspace.root T)
      (GivenUp a.workspace.root before) := by
  refine meets_locateFile_bind hu fun p hl hb hp => meets_change fun h files hh hc => ?_
  obtain ⟨-, rfl⟩ := unlink_eq_ok (hh.settled hb.1 hp) hc
  exact (hh.erase hb).mono fun _ hq => hq ▸ hT p hl

theorem meets_overwrite (hu : before.files.Unlinked a.workspace.root)
    (hT : ∀ p, a.workspace.Locates before path p → T p) (content : Text) :
    Meets (· = before) (a.overwrite path (.text content))
      (fun _ => before.Changed a.workspace.root T) (GivenUp a.workspace.root before) :=
  meets_locateFile_bind hu fun p hl hb hp => (meets_writeText hb hp content).mono
    (fun _ hh => hh) (fun _ _ hh => hh.mono fun _ hq => hq ▸ hT p hl) fun _ _ hh => hh

theorem meets_edit (hu : before.files.Unlinked a.workspace.root)
    (hT : ∀ p, a.workspace.Locates before path p → T p) (search replacement : Text) :
    Meets (· = before) (a.edit path (.text search) (.text replacement))
      (fun _ => before.Changed a.workspace.root T) (GivenUp a.workspace.root before) := by
  refine meets_locateFile_bind hu fun p hl hb hp => ?_
  refine (looks_readText _).meets_bind (endsOnly_readText _) (fun _ _ hf hh => ⟨hf, hh⟩)
    fun content => ?_
  simp only [needText_text, pure_bind]
  refine Meets.unless (fun _ h hh => ⟨rfl, hh.1⟩) fun _ => ?_
  refine Meets.bind (M := fun _ => before.Changed a.workspace.root T) ?_
    fun _ => meets_say fun h hh => hh.console _
  exact (meets_writeText hb hp _).mono (fun _ hh => hh.1)
    (fun _ _ hh => hh.mono fun _ hq => hq ▸ hT p hl) fun _ _ hh => hh

/-- A move is made between places below the root, or not at all. -/
theorem meets_move {p q : Location} (hp : Below a.workspace.root p) (hps : ∀ s ∈ p, isPlain s)
    (hq : Below a.workspace.root q) (hqs : ∀ s ∈ q, isPlain s) :
    Meets (before.Made a.workspace.root)
      (a.move (FilePath.ofNames p).text (FilePath.ofNames q).text)
      (fun _ h => ∃ h', before.Made a.workspace.root h' ∧ h = h'.displace (.move p q))
      (GivenUp a.workspace.root before) := by
  intro h hh
  have h0 : p ≠ [] := by
    rintro rfl
    exact hp.2 (List.prefix_nil.1 hp.1).symm
  rw [move, outcome_bind_of_ok (outcome_get h)]
  rcases hr : h.files.relocateAll h.cwd (FilePath.ofNames p).text (FilePath.ofNames q).text
    with fault | way
  · cases fault <;> exact ⟨rfl, hh⟩
  · obtain rfl := relocateAll_eq_ok (hh.settled hp.1 hps) (hh.settled hq.1 hqs) h0 hr
    exact ⟨h, hh, rfl⟩

theorem meets_rename (hu : before.files.Unlinked a.workspace.root) (source target : Text) :
    Meets (· = before) (a.rename source (.text target))
      (fun _ => before.Changed a.workspace.root
        (a.workspace.Covers before (.rename (.text source) (.text target))))
      (a.Unfinished before) := by
  refine meets_locate_bind_of_unlinked hu (fun f hf => ⟨.inl hf, .refl hu⟩) fun p hl hb hp => ?_
  simp only [needText_text, pure_bind]
  refine meets_locate_bind_of_unlinked hu (fun f hf => ⟨.inl hf, .refl hu⟩) fun q hl' hb' hq => ?_
  refine (looks_pathExists _).meets_bind (endsOnly_pathExists _)
    (fun _ _ hf hh => ⟨.inl hf, .of_eq hu hh⟩) fun there => ?_
  refine Meets.unless (fun _ h hh => ⟨.inl rfl, .of_eq hu hh.1⟩) fun hthere => ?_
  refine (looks_pathExists _).meets_bind (endsOnly_pathExists _)
    (fun _ _ hf hh => ⟨.inl hf, .of_eq hu hh.1⟩) fun taken => ?_
  refine Meets.unless (fun _ h hh => ⟨.inl rfl, .of_eq hu hh.1.1⟩) fun _ => ?_
  rintro h ⟨⟨rfl, ho⟩, -⟩
  obtain rfl : there = true := by simpa using hthere
  obtain ⟨e, he⟩ := entryAt_of_pathExists (hu.settled hb.1 hp) ho
  refine ((meets_makeRoom hb' hq).bind fun _ => (unfinished (meets_move hb hp hb' hq)).mono
    (fun _ hh => hh) (fun _ after hh => ?_) fun _ _ hh => hh) h (.refl hu)
  obtain ⟨made, hmade, rfl⟩ := hh
  refine (hmade.move hb hb').mono fun r hr => ?_
  have hmoves (hd : made.files.IsDirectory p) :
      a.workspace.MovesDirectory h (.rename (.text source) (.text target)) :=
    ⟨source, .text target, p, rfl, hl, by rw [IsDirectory, he, ← hmade.entryAt_eq he, hd]⟩
  rcases hr with rfl | rfl | ⟨hd, hr | hr⟩
  · exact ⟨source, r, by simp [Operation.paths], hl, .inl rfl⟩
  · exact ⟨target, r, by simp [Operation.paths], hl', .inl rfl⟩
  · exact ⟨source, p, by simp [Operation.paths], hl, .inr ⟨hr, hmoves hd⟩⟩
  · exact ⟨target, q, by simp [Operation.paths], hl', .inr ⟨hr, hmoves hd⟩⟩

/-- **An operation changes files where its paths lead, or none if it is not carried out.** -/
theorem meets_apply (hu : before.files.Unlinked a.workspace.root)
    (op : Operation Text) :
    Meets (· = before) (a.apply (op.map .text))
      (fun _ => before.Changed a.workspace.root (a.workspace.Covers before (op.map .text)))
      (a.Unfinished before) := by
  have hT {path : Text} (hpath : .text path ∈ (op.map Value.text).paths) (p : Location)
      (hl : a.workspace.Locates before path p) : a.workspace.Covers before (op.map .text) p :=
    ⟨path, p, hpath, hl, .inl rfl⟩
  cases op with
  | create file content => exact meets_create hu (hT (List.mem_singleton_self _)) content
  | delete file => exact unfinished (meets_delete hu (hT (List.mem_singleton_self _)))
  | rename source target => exact meets_rename hu source target
  | edit file search replacement =>
    exact unfinished (meets_edit hu (hT (List.mem_singleton_self _)) search replacement)
  | overwrite file content =>
    exact unfinished (meets_overwrite hu (hT (List.mem_singleton_self _)) content)

end Applier

end ReplyLedger
