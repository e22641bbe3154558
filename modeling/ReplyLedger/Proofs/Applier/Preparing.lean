import ReplyLedger.Proofs.Applier.Locating
import ReplyLedger.Proofs.FileSystem.FreePlaces
import ReplyLedger.Proofs.Host.Making

/-!
# What is done before the last call

An operation with a target looks first, then makes the directories above the target that are missing,
and then makes the call that writes or moves. The directories above are made unless more of them are
missing than calls can be nested (`Applier.IsOutOfReach`, `Applier.meets_makeRoom_gains`). After that
nothing is found at a place that was free (`Action.Prepared`), and a renaming acts on the locations
to which its paths have led at its beginning (`Applier.relocation_of_prepared`).

So a renaming moves an entry below itself only if it would have done so at its beginning
(`Workspace.MovesBelowItself`), which takes a path whose way meets a loop
(`Workspace.not_movesBelowItself`).
-/

namespace ReplyLedger

open FileSystem

/-! ## The directories above a place -/

namespace Action

variable {before h : Host} {q : Location}

/-- Nothing but what is shown and asked has changed. -/
structure Unmoved (before h : Host) : Prop where
  files : h.files = before.files
  cwd : h.cwd = before.cwd

/-- The directories above a location have been made, and if nothing was found at the location, then
nothing is. -/
structure Prepared (before : Host) (q : Location) (h : Host) : Prop where
  gains : before.files.GainsDirectories (fun _ => True) h.files
  cwd : h.cwd = before.cwd
  nowhere : before.files.LeadsNowhere before.cwd (FilePath.ofNames q).text →
    h.files.LeadsNowhere h.cwd (FilePath.ofNames q).text

theorem endsOnly_ensureDirectory (path : Text) : EndsOnly (ensureDirectory path) := by
  refine (endsOnly_change path _).rescue (fun f hf => ?_) fun f hf _ => hf
  refine (endsOnly_isDirectory path).bind fun there => ?_
  cases there with
  | true => exact failsWith_pure ()
  | false => exact failsWith_fail hf

theorem endsOnly_ensureDirectoriesFrom (anchor : FilePath.Anchor) (names : List Text) :
    EndsOnly (ensureDirectoriesFrom anchor names) := by
  induction names with
  | nil => exact endsOnly_ensureDirectory _
  | cons name above ih =>
    refine (endsOnly_ensureDirectory _).rescue (fun f _ => ?_) fun f hf _ => hf
    exact ih.bind fun _ => endsOnly_ensureDirectory _

theorem endsOnly_ensureDirectories (path : FilePath) : EndsOnly (ensureDirectories path) :=
  endsOnly_ensureDirectoriesFrom _ _

/-- The directories above a location are made, and nothing else, or that fails in a way that ends only
the operation. -/
theorem meets_prepare (hq : ∀ s ∈ q, isPlain s) (h0 : q ≠ []) :
    Meets (Unmoved before) (ensureDirectories (FilePath.ofNames q).parent)
      (fun _ => Prepared before q) fun f h =>
        (f.endsOperation ∧ f.isRefusal = false) ∧
          before.files.GainsDirectories (fun _ => True) h.files := by
  intro h hh
  have hstart : before.files.GainsDirectories (fun _ => True) h.files := hh.files ▸ .refl _ _
  have hfiles := (meets_ensureDirectories_gains (FilePath.ofNames q).parent).failsWith
    (endsOnly_ensureDirectories _) h hstart
  have hcwd := (gains_ensureDirectories (FilePath.ofNames q).parent h).2
  rcases ho : outcome (ensureDirectories (FilePath.ofNames q).parent) h with ⟨f | _, h'⟩
  · rw [ho] at hfiles
    exact ⟨⟨hfiles.1, hfiles.2.1⟩, hfiles.2.2⟩
  · rw [ho] at hfiles hcwd
    refine ⟨hfiles, hcwd.trans hh.cwd, fun hs => leadsNowhere_of_ensureDirectories hq h0 ?_ ho⟩
    rwa [hh.files, hh.cwd]

end Action

/-! ## Renamings -/

namespace Workspace

/-- A renaming would take the entry at `p` to the place `q`. -/
structure Takes (w : Workspace) (h : Host) (source target : Text) (p q : Location) : Prop where
  source : ∃ p₀ e, w.Locates h source p₀ ∧
    h.files.find h.cwd .kept (FilePath.ofNames p₀).text = .ok (.entry p e)
  target : ∃ q₀, w.Locates h target q₀ ∧ h.files.LeadsTo ([], q₀) q

/-- A renaming would move a directory below itself, though the names of the locations do not show
that. -/
def MovesBelowItself (w : Workspace) (h : Host) (source target : Text) : Prop :=
  ∃ p₀ q₀ p q, w.Locates h source p₀ ∧ w.Locates h target q₀ ∧
    h.files.find h.cwd .kept (FilePath.ofNames p₀).text = .ok (.entry p .directory) ∧
    h.files.LeadsTo ([], q₀) q ∧ p <+: q ∧ ¬ p₀ <+: q₀

/-- The names show it, if the ways of the two paths meet no loop. -/
theorem not_movesBelowItself {w : Workspace} {h : Host} {source target : Text}
    (hr : ∀ s ∈ w.root, '/' ∉ s) (hs : ¬ h.files.MeetsLoop (w.way source))
    (ht : ¬ h.files.MeetsLoop (w.way target)) : ¬ w.MovesBelowItself h source target := by
  rintro ⟨p₀, q₀, p, q, hl, hl', hfind, hleads, hpq, hnot⟩
  have hsettled := (end_of_locates hr hl hs).1
  obtain rfl : q = q₀ := (end_of_locates hr hl' ht).1.eq_of_leadsTo hleads
  have hsight := sighting_find h.cwd .kept hsettled
  rw [hfind] at hsight
  cases hsight with
  | entry => exact hnot hpq

/-- Whether a location is at the place to which a renaming would move a directory below itself, or
below that place. -/
def SpreadsTo (w : Workspace) (h : Host) (op : Operation Json.Value) (r : Location) : Prop :=
  ∃ source target p q, op = .rename (.text source) (.text target) ∧
    w.MovesBelowItself h source target ∧ w.Takes h source target p q ∧ q <+: r

end Workspace

namespace Applier

open ReplyLedger.Action Workspace Json

variable {a : Applier} {before h : Host}

/-! ## Room for a target -/

/-- More directories are missing in a row above a location than calls can be nested. -/
def IsOutOfReach (a : Applier) (h : Host) (q : Location) : Prop :=
  ∃ depth, a.nesting = some depth ∧ depth < missing h.files h.cwd .root q.dropLast.reverse

/-- How the directories above a location are not made. -/
inductive Unprepared (a : Applier) (before : Host) (q : Location) : Failure → Host → Prop
  /-- The location is out of reach. -/
  | tooDeep {h : Host} (hq : a.IsOutOfReach before q) (hh : Unmoved before h) :
    Unprepared a before q .tooDeep h
  /-- One of them cannot be made. -/
  | refused {f : Failure} {h : Host} (hf : f.endsOperation ∧ f.isRefusal = false)
    (hh : before.files.GainsDirectories (fun _ => True) h.files) : Unprepared a before q f h

/-- **The directories above a target are made, and nothing else**, unless it is out of reach. -/
theorem meets_makeRoom_prepared (a : Applier) {q : Location} (hq : ∀ s ∈ q, isPlain s)
    (h0 : q ≠ []) :
    Meets (Unmoved before) (a.makeRoom (FilePath.ofNames q)) (fun _ => Prepared before q)
      (a.Unprepared before q) := by
  refine Meets.bind (M := fun _ => Unmoved before) (fun h hh => ?_) fun _ =>
    (meets_prepare hq h0).mono (fun _ hh => hh) (fun _ _ hh => hh) fun _ _ hh => .refused hh.1 hh.2
  rw [checkDepth, outcome_bind_of_ok (outcome_get h)]
  by_cases hn : a.canNest (missing h.files h.cwd .root q.dropLast.reverse)
  · rw [FilePath.parent_ofNames, FilePath.ofNames, if_pos hn]
    exact hh
  · rw [FilePath.parent_ofNames, FilePath.ofNames, if_neg hn]
    refine .tooDeep ?_ hh
    rw [canNest] at hn
    rcases hnest : a.nesting with _ | depth
    · simp [hnest] at hn
    · refine ⟨depth, hnest, ?_⟩
      rw [← hh.files, ← hh.cwd]
      simpa [hnest] using hn

/-! ## Renamings -/

/-- A field that has to be a text is one, or the operation fails at once. -/
theorem meets_needText_bind {α : Type} {P : Host → Prop} {Q : α → Host → Prop}
    {E : Failure → Host → Prop} {v : Value} {f : Text → Action α}
    (he : (∀ t, v ≠ .text t) → ∀ h, P h → E .wrongType h)
    (hf : ∀ t, v = .text t → Meets P (f t) Q E) : Meets P (needText v >>= f) Q E := by
  cases v with
  | text t => exact hf t rfl
  | _ => exact Meets.bind (M := fun _ _ => False) (meets_fail (he (by simp))) fun _ _ hh => hh.elim

/-- What a renaming comes to: it fails before anything has been changed, or while the directories
above its target are made, or it comes to the last call. -/
theorem meets_rename_of {Q : Unit → Host → Prop} {E : Failure → Host → Prop} {source : Text}
    {target : Value} (hr : ∀ s ∈ a.workspace.root, '/' ∉ s)
    (hwrong : (∀ t, target ≠ .text t) → E .wrongType before)
    (hearly : ∀ f, f.endsOperation → E f before)
    (hroom : ∀ t q f h, target = .text t → a.workspace.Locates before t q →
      a.Unprepared before q f h → E f h)
    (hmove : ∀ t p q r e, target = .text t → a.workspace.Locates before source p →
      a.workspace.Locates before t q →
      before.files.find before.cwd .kept (FilePath.ofNames p).text = .ok (.entry r e) →
      before.files.LeadsNowhere before.cwd (FilePath.ofNames q).text →
      Meets (Prepared before q) (a.move (FilePath.ofNames p).text (FilePath.ofNames q).text) Q E) :
    Meets (· = before) (a.rename source target) Q E := by
  refine meets_locate_bind hearly fun p hl => ?_
  refine meets_needText_bind (fun hn _ hh => hh ▸ hwrong hn) fun t ht => ?_
  refine meets_locate_bind hearly fun q hl' => ?_
  have hp := isPlain_of_locates hr hl
  have hq := isPlain_of_locates hr hl'
  refine (looks_pathExists _).meets_bind (endsOnly_pathExists _)
    (fun f _ hf hh => hh ▸ hearly f hf) fun there => ?_
  refine Meets.unless (fun _ _ hh => hh.1 ▸ hearly _ rfl) fun hthere => ?_
  refine (looks_pathExists _).meets_bind (endsOnly_pathExists _)
    (fun f _ hf hh => hh.1 ▸ hearly f hf) fun taken => ?_
  refine Meets.unless (fun _ _ hh => hh.1.1 ▸ hearly _ rfl) fun htaken => ?_
  rintro h ⟨⟨rfl, hsource⟩, htarget⟩
  obtain rfl : there = true := by simpa using hthere
  obtain rfl : taken = false := by simpa using htaken
  obtain ⟨_, hstatus⟩ := exists_status_of_pathExists (by rw [hsource])
  obtain ⟨r, e, hs⟩ := exists_entry_of_status (slash_not_mem hp) hstatus
  have hnowhere : h.files.LeadsNowhere h.cwd (FilePath.ofNames q).text :=
    status_of_not_pathExists (FilePath.hasNul_ofNames hq) (by rw [htarget])
  refine (((meets_makeRoom_prepared a hq (ne_nil_of_locates hl')).mono (fun _ hh => hh)
    (fun _ _ hh => hh) fun f k hh => hroom t q f k ht hl' hh).bind fun _ => ?_) h ⟨rfl, rfl⟩
  exact hmove t p q r e ht hl hl' hs hnowhere

/-- **A renaming acts on the locations to which its paths have led at its beginning**, and it copies
a directory only if it is one that would be moved below itself. No file is at the place that it takes
the entry to. -/
theorem relocation_of_prepared {source target : Text} {p q r : Location} {e : Entry}
    {way : Relocation} (hr : ∀ s ∈ a.workspace.root, '/' ∉ s)
    (hl : a.workspace.Locates before source p) (hl' : a.workspace.Locates before target q)
    (hs : before.files.find before.cwd .kept (FilePath.ofNames p).text = .ok (.entry r e))
    (hnowhere : before.files.LeadsNowhere before.cwd (FilePath.ofNames q).text)
    (hh : Prepared before q h)
    (hw : h.files.relocateAll h.cwd (FilePath.ofNames p).text (FilePath.ofNames q).text = .ok way) :
    ∃ q', a.workspace.Takes before source target r q' ∧
      (∀ bytes, h.files.entryAt q' ≠ some (.file bytes)) ∧
      (way = .displace (.move r q') ∨
        way = .copy r q' ∧ h.files.entryAt q' = none ∧
          a.workspace.MovesBelowItself before source target) := by
  obtain ⟨r', e', q', hs', hleads, hfile, hway⟩ := (hh.nowhere hnowhere).relocation_of_relocateAll
    (ne_nil_of_locates hl) (slash_not_mem (isPlain_of_locates hr hl')) hw
  -- the directories that have been made do not change where the source leads
  obtain ⟨rfl, rfl⟩ : r = r' ∧ e = e' := by
    have hfind := hh.gains.find_eq hs
    rw [← hh.cwd, hs'] at hfind
    simpa [eq_comm] using hfind
  have hleads' := hleads.congr hh.gains.sameLinks.symm
  refine ⟨q', ⟨⟨p, e, hl, hs⟩, q, hl', hleads'⟩, hfile, hway.imp_right ?_⟩
  rintro ⟨rfl, rfl, hfree, hbelow, hnames⟩
  exact ⟨rfl, hfree, p, q, r, q', hl, hl', hs, hleads', hbelow, hnames⟩

end Applier

end ReplyLedger
