import ReplyLedger.Proofs.Applier.Batches
import ReplyLedger.Proofs.Applier.Preparing

/-!
# Creations and renamings keep files

A creation writes to a new file, and a renaming moves an entry to where no file is, whatever links
there are: each has looked before whether something is at its target, and making the directories
above the target does not change what it has seen (`Action.Prepared`). So without consent to
overwrite, they keep every file, where it is or where a renaming has taken it
(`Applier.keepsFiles_applyAll`).

The exception is a directory that is moved below itself though the names of the locations do not
show that (`Workspace.MovesBelowItself`). If it is moved to a place in itself, it is removed then with
all that is in it (`Applier.lost_crossedHost`).
-/

namespace ReplyLedger

open FileSystem

namespace Host

/-- The files that there were are where they were. -/
abbrev InPlace (before h : Host) : Prop := before.files.KeepsFiles False id h.files

theorem inPlace_of_eq {before h : Host} (hh : h = before) : before.InPlace h := hh ▸ .refl _

end Host

/-! ## Files in new directories -/

namespace Action

variable {before : Host} {q : Location}

/-- A file that is written where nothing was found is a new one. -/
theorem meets_changeFile_prepared
    (hs : before.files.LeadsNowhere before.cwd (FilePath.ofNames q).text)
    (change' : Bytes → Bytes) :
    Meets (Prepared before q)
      (change (FilePath.ofNames q).text fun files cwd =>
        files.changeFile cwd (FilePath.ofNames q).text change')
      (fun _ => before.InPlace) fun _ => before.InPlace :=
  (meets_change fun _ _ hh hc =>
    (KeepsFiles.of_gains hh.gains).trans ((hh.nowhere hs).keepsFiles_changeFile hc)).mono
      (fun _ hh => hh) (fun _ _ hh => hh) fun _ _ hh => .of_gains hh.2.gains

theorem meets_writeValue_prepared
    (hs : before.files.LeadsNowhere before.cwd (FilePath.ofNames q).text) (content : Json.Value) :
    Meets (Prepared before q) (writeValue (FilePath.ofNames q).text content)
      (fun _ => before.InPlace) fun _ => before.InPlace := by
  cases content with
  | text t => exact meets_changeFile_prepared hs _
  | _ => exact (meets_changeFile_prepared hs _).bind fun _ => meets_fail fun _ hh => hh

end Action

/-! ## Renamings -/

namespace Workspace

/-- What the files are after an operation has been carried out: each of them is kept, where it is or
where a renaming has taken it. -/
def Kept (w : Workspace) (before : Host) (op : Operation Json.Value) (h : Host) : Prop :=
  before.InPlace h ∨
    ∃ source target p q, op = .rename (.text source) (.text target) ∧
      w.Takes before source target p q ∧ before.files.KeepsFiles False (relocate p q) h.files

end Workspace

namespace Applier

open ReplyLedger.Action Workspace Json

variable {a : Applier} {before h : Host} {op : Operation Value} {ops : List (Operation Value)}

/-- Whether a question is never answered with consent. -/
def NeverConsents (a : Applier) : Prop :=
  ∀ confirm, a.confirm = some confirm →
    ∀ question console, (confirm question console).1 ≠ some true

/-! ## Operations -/

/-- Directories that are not all made leave the files where they were. -/
theorem inPlace_of_unprepared {q : Location} {f : Failure} (hh : a.Unprepared before q f h) :
    before.InPlace h := by
  cases hh with
  | tooDeep _ hh =>
    rw [Host.InPlace, hh.files]
    exact .refl _
  | refused _ hh => exact .of_gains hh

/-- Without consent, an overwriting is declined. -/
theorem meets_mayOverwrite_refused (hc : a.NeverConsents) (path : Text) :
    Meets (· = before) (a.mayOverwrite path)
      (fun agreed h => agreed = false ∧ before.InPlace h) fun _ h => before.InPlace h := by
  unfold mayOverwrite
  split
  · rename_i confirm hconfirm
    rintro h rfl
    have hanswer := hc confirm hconfirm path h.console
    rw [outcome_ask]
    rcases ho : (confirm path h.console).1 with _ | _ | _
    · exact .refl _
    · exact ⟨rfl, .refl _⟩
    · exact absurd ho hanswer
  · exact meets_pure fun h hh => ⟨rfl, Host.inPlace_of_eq hh⟩

theorem keeps_create (hr : ∀ s ∈ a.workspace.root, '/' ∉ s) (hc : a.NeverConsents) (path : Text)
    (content : Value) :
    Meets (· = before) (a.create path content) (fun _ => before.InPlace)
      fun _ => before.InPlace := by
  refine meets_locate_bind (fun _ _ => Host.inPlace_of_eq rfl) fun q hl => ?_
  have hq := isPlain_of_locates hr hl
  have h0 := ne_nil_of_locates hl
  refine (looks_isDirectory _).meets_bind (endsOnly_isDirectory _)
    (fun _ _ _ hh => Host.inPlace_of_eq hh) fun there => ?_
  refine Meets.unless (fun _ _ hh => Host.inPlace_of_eq hh.1) fun _ => ?_
  refine (looks_pathExists _).meets_bind (endsOnly_pathExists _)
    (fun _ _ _ hh => Host.inPlace_of_eq hh.1) fun there => ?_
  cases there with
  | true =>
    refine Meets.bind (M := fun agreed h => agreed = false ∧ before.InPlace h) ?_ fun agreed => ?_
    · exact (meets_mayOverwrite_refused hc path).mono (fun _ hh => hh.1.1) (fun _ _ hh => hh)
        fun _ _ hh => hh
    · exact Meets.unless (fun _ _ hh => hh.2) fun hagreed h hh => by simp [hh.1] at hagreed
  | false =>
    rintro h ⟨⟨rfl, -⟩, ho⟩
    have hnowhere : h.files.LeadsNowhere h.cwd (FilePath.ofNames q).text :=
      status_of_not_pathExists (FilePath.hasNul_ofNames hq) (by rw [ho])
    refine (((meets_makeRoom_prepared a hq h0).mono (fun _ hh => hh) (fun _ _ hh => hh)
      fun _ _ hh => inPlace_of_unprepared hh).bind fun _ => ?_) h ⟨rfl, rfl⟩
    exact meets_writeValue_prepared hnowhere content

/-- An entry is moved to where no file is, or nothing is moved. -/
theorem keeps_move {source target : Text} {p q r : Location} {e : Entry}
    (hr : ∀ s ∈ a.workspace.root, '/' ∉ s) (hl : a.workspace.Locates before source p)
    (hl' : a.workspace.Locates before target q)
    (hs : before.files.find before.cwd .kept (FilePath.ofNames p).text = .ok (.entry r e))
    (hnowhere : before.files.LeadsNowhere before.cwd (FilePath.ofNames q).text)
    (hb : ¬ a.workspace.MovesBelowItself before source target) :
    Meets (Prepared before q) (a.move (FilePath.ofNames p).text (FilePath.ofNames q).text)
      (fun _ => a.workspace.Kept before (.rename (.text source) (.text target)))
      fun _ => before.InPlace := by
  intro h hh
  have hmade : before.InPlace h := .of_gains hh.gains
  rw [move, outcome_bind_of_ok (outcome_get h)]
  rcases hmove : h.files.relocateAll h.cwd (FilePath.ofNames p).text (FilePath.ofNames q).text
    with fault | way
  · cases fault <;> exact hmade
  · obtain ⟨q', htakes, hfile, rfl | ⟨-, -, hbelow⟩⟩ :=
      relocation_of_prepared hr hl hl' hs hnowhere hh hmove
    · have hmoved : h.files.KeepsFiles False (relocate r q') (h.displace (.move r q')).files ∨
          (h.displace (.move r q')).files = h.files := KeepsFiles.move hfile
      rcases hmoved with hkeeps | hfiles
      · exact .inr ⟨source, target, r, q', rfl, htakes, hmade.trans hkeeps⟩
      · exact .inl (by rwa [Host.InPlace, hfiles])
    · exact absurd hbelow hb

theorem keeps_rename (hr : ∀ s ∈ a.workspace.root, '/' ∉ s) (source : Text) (target : Value)
    (hb : ∀ t, target = .text t → ¬ a.workspace.MovesBelowItself before source t) :
    Meets (· = before) (a.rename source target)
      (fun _ => a.workspace.Kept before (.rename (.text source) target))
      fun _ => before.InPlace := by
  refine meets_rename_of hr (fun _ => Host.inPlace_of_eq rfl) (fun _ _ => Host.inPlace_of_eq rfl)
    (fun _ _ _ _ _ _ hh => inPlace_of_unprepared hh) fun t p q r e ht hl hl' hs hnowhere => ?_
  subst ht
  exact keeps_move hr hl hl' hs hnowhere (hb t rfl)

/-- **A creation or a renaming keeps every file.** -/
theorem keeps_apply (hr : ∀ s ∈ a.workspace.root, '/' ∉ s) (hc : a.NeverConsents)
    (hop : op.kind = .create ∨ op.kind = .rename)
    (hb : ∀ source target, op = .rename (.text source) (.text target) →
      ¬ a.workspace.MovesBelowItself before source target) :
    Meets (· = before) (a.apply op) (fun _ => a.workspace.Kept before op)
      fun _ => before.InPlace := by
  cases op with
  | create file content =>
    refine meets_needText_bind (fun _ _ hh => Host.inPlace_of_eq hh) fun path _ => ?_
    exact (keeps_create hr hc path content).mono (fun _ hh => hh) (fun _ _ hh => .inl hh)
      fun _ _ hh => hh
  | rename source target =>
    refine meets_needText_bind (fun _ _ hh => Host.inPlace_of_eq hh) fun path hpath => ?_
    subst hpath
    exact keeps_rename hr path target fun t ht => hb path t (by rw [ht])
  | delete file => simp [Operation.kind] at hop
  | edit file search replacement => simp [Operation.kind] at hop
  | overwrite file content => simp [Operation.kind] at hop

/-! ## Batches -/

/-- What is noted about an operation may be added to a file, the journal's. -/
theorem keepsFiles_note (a : Applier) (entry : Text) (h : Host) :
    h.files.KeepsFiles (a.journal ≠ none) id (outcome (a.note entry) h).2.files := by
  rcases hj : a.journal with _ | journal
  · rw [files_note hj]
    exact .refl _
  · have hwrite : Ensures (fun files => h.files.KeepsFiles (some journal ≠ none) id files)
        (journal.write entry) (fun files => h.files.KeepsFiles (some journal ≠ none) id files) := by
      refine Ensures.bind (M := fun files => h.files.KeepsFiles (some journal ≠ none) id files)
        (fun k hk => ?_) (fun _ => ?_) fun _ hk => hk
      · exact hk.trans (.of_gains (gains_ensureDirectories journal.path.parent k).1)
      · refine (ensures_journalNow fun _ hk => hk).bind (fun time => ?_) fun _ hk => hk
        refine (ensures_change (fun files cwd files' hk hc => ?_) fun _ hk => hk).bind
          (fun _ => ensures_say _ _ fun _ hk => hk) fun _ hk => hk
        exact hk.trans (keepsFiles_changeFile_append (by simp) hc)
    rw [note, hj]
    exact hwrite h (.refl _)

/-- Where the renamings of a batch that are carried out take the files. -/
inductive CarriesAll (a : Applier) (h : Host) :
    List (Operation Value) → (Location → Location) → Prop
  | nil : CarriesAll a h [] id
  | stay {ops : List (Operation Value)} {move : Location → Location} {op : Operation Value}
      (hops : CarriesAll a h ops move) : CarriesAll a h (ops ++ [op]) move
  | take {ops : List (Operation Value)} {move : Location → Location} {source target : Text}
      {p q : Location} {r : BatchReport} {k : Host} (hops : CarriesAll a h ops move)
      (hk : outcome (a.applyAll ops) h = (.ok r, k))
      (hdone : a.isCarriedOut (.rename (.text source) (.text target)) k)
      (htakes : a.workspace.Takes k source target p q) :
      CarriesAll a h (ops ++ [.rename (.text source) (.text target)]) (relocate p q ∘ move)

/-- Whether no renaming of a batch would move a directory below itself, when it is its turn, though
the names of the locations do not show that. -/
def NeverBelowItself (a : Applier) (h : Host) (ops : List (Operation Value)) : Prop :=
  ∀ earlier source target later r k,
    ops = earlier ++ .rename (.text source) (.text target) :: later →
    outcome (a.applyAll earlier) h = (.ok r, k) → ¬ a.workspace.MovesBelowItself k source target

/-- One more operation keeps what the operations before it have kept. -/
theorem keepsFiles_applyNext (hr : ∀ s ∈ a.workspace.root, '/' ∉ s) (hc : a.NeverConsents)
    (hop : op.kind = .create ∨ op.kind = .rename)
    (hb : ∀ source target, op = .rename (.text source) (.text target) →
      ¬ a.workspace.MovesBelowItself h source target) (r : BatchReport) :
    h.files.KeepsFiles (a.journal ≠ none) id (outcome (a.applyNext r op) h).2.files ∨
      ∃ source target p q, op = .rename (.text source) (.text target) ∧ a.isCarriedOut op h ∧
        a.workspace.Takes h source target p q ∧
        h.files.KeepsFiles (a.journal ≠ none) (relocate p q)
          (outcome (a.applyNext r op) h).2.files := by
  have hnoted (entry : Text) (r' : BatchReport) (k : Host) :
      k.files.KeepsFiles (a.journal ≠ none) id
        (outcome (a.note entry >>= fun _ => pure r') k).2.files := by
    have hnote := keepsFiles_note a entry k
    rw [outcome_bind]
    rcases ho : outcome (a.note entry) k with ⟨_ | _, k'⟩ <;> rwa [ho] at hnote
  have hkept := keeps_apply hr hc hop hb h rfl
  rw [outcome_applyNext, isCarriedOut]
  rcases ho : outcome (a.apply op) h with ⟨f | _, k⟩
  · rw [ho] at hkept
    have hplace : h.files.KeepsFiles (a.journal ≠ none) id k.files := hkept.mono False.elim
    dsimp only
    split
    · exact .inl (hplace.trans (hnoted _ _ k))
    · exact .inl hplace
  · rw [ho] at hkept
    rcases hkept with hplace | ⟨source, target, p, q, hrename, htakes, hmoved⟩
    · exact .inl ((hplace.mono False.elim).trans (hnoted _ _ k))
    · exact .inr ⟨source, target, p, q, hrename, rfl, htakes,
        (hmoved.mono False.elim).trans (hnoted _ _ k)⟩

/-- **A batch of creations and renamings keeps every file.** Without consent to overwrite, and
unless a directory is moved below itself, every file is found again with its bytes, where it was or
where the renamings that were carried out have taken it, and no two files at one location. So what
the files hold is still there, and as often as before. With a journal, text may have been added to a
file, where the journal is. -/
theorem keepsFiles_applyAll (a : Applier) {h : Host} {ops : List (Operation Value)}
    (hr : ∀ s ∈ a.workspace.root, '/' ∉ s) (hc : a.NeverConsents)
    (hops : ∀ op ∈ ops, op.kind = .create ∨ op.kind = .rename) (hb : a.NeverBelowItself h ops) :
    ∃ move, a.CarriesAll h ops move ∧
      h.files.KeepsFiles (a.journal ≠ none) move (outcome (a.applyAll ops) h).2.files ∧
      (a.journal = none → h.files.contents ≤ (outcome (a.applyAll ops) h).2.files.contents) := by
  have hmain : ∃ move, a.CarriesAll h ops move ∧
      h.files.KeepsFiles (a.journal ≠ none) move (outcome (a.applyAll ops) h).2.files := by
    induction ops using List.reverseRecOn with
    | nil => exact ⟨id, .nil, .refl _⟩
    | append_singleton ops op ih =>
      obtain ⟨move, hcarries, hkeeps⟩ := ih (fun op hop => hops op (List.mem_append_left _ hop))
        fun earlier source target later r k he => hb earlier source target (later ++ [op]) r k
          (by rw [he, List.append_assoc, List.cons_append])
      rw [applyAll_concat, outcome_bind]
      rcases ho : outcome (a.applyAll ops) h with ⟨f | r, k⟩
      · rw [ho] at hkeeps
        exact ⟨move, .stay hcarries, hkeeps⟩
      · rw [ho] at hkeeps
        have hnever (source target : Text) (he : op = .rename (.text source) (.text target)) :
            ¬ a.workspace.MovesBelowItself k source target :=
          hb ops source target [] r k (by rw [he]) ho
        rcases keepsFiles_applyNext hr hc (hops op (by simp)) hnever r with
          hplace | ⟨source, target, p, q, rfl, hdone, htakes, hmoved⟩
        · exact ⟨move, .stay hcarries, hkeeps.trans hplace⟩
        · exact ⟨_, .take hcarries ho hdone htakes, hkeeps.trans hmoved⟩
  obtain ⟨move, hcarries, hkeeps⟩ := hmain
  exact ⟨move, hcarries, hkeeps, fun hj => (hkeeps.mono (absurd hj)).contents_le⟩

/-! ## A directory that is moved below itself -/

/-- A workspace `/w` with a directory `d` that holds a file, a link `k` to it, and a link `l` to
itself. -/
def crossedHost : Host := .ofFiles <|
  ((((FileSystem.empty.put [['w']] .directory).put [['w'], ['d']] .directory).put
    [['w'], ['d'], ['f']] (.file [104, 105])).put [['w'], ['k']] (.link ['d'])).put
    [['w'], ['l']] (.link ['l'])

/-- The file that would be overwritten is kept; it is moved with its directory, and another one is
made in its old place. -/
theorem keepsFiles_crossedHost :
    let a : Applier := { workspace := ⟨[['w']]⟩ }
    let ops : List (Operation Value) := [.create (.text "d/f") (.text ['n']),
      .rename (.text "k") (.text "m/n"), .create (.text "d/f") (.text ['n'])]
    let after := (outcome (a.applyAll ops) crossedHost).2
    a.NeverConsents ∧ (∀ op ∈ ops, op.kind = .create ∨ op.kind = .rename) ∧
      a.NeverBelowItself crossedHost ops ∧
      (∃ move, a.CarriesAll crossedHost ops move ∧
        crossedHost.files.KeepsFiles (a.journal ≠ none) move after.files) ∧
      crossedHost.files.contents ≤ after.files.contents ∧
      after.files.entryAt [['w'], ['m'], ['n'], ['f']] = some (.file [104, 105]) ∧
      after.files.entryAt [['w'], ['d'], ['f']] = some (.file (Utf8.encode ['n'])) := by
  intro a ops after
  have hr : ∀ s ∈ a.workspace.root, '/' ∉ s := by decide
  have hc : a.NeverConsents := fun _ hconfirm => nomatch hconfirm
  have hops : ∀ op ∈ ops, op.kind = .create ∨ op.kind = .rename := by decide
  have hb : a.NeverBelowItself crossedHost ops := by
    intro earlier source target later r k he hk
    rcases earlier with _ | ⟨_, _ | ⟨_, _ | ⟨_, earlier⟩⟩⟩ <;> simp [ops] at he
    obtain ⟨rfl, ⟨rfl, rfl⟩, rfl⟩ := he
    have hfiles : k.files = crossedHost.files := by
      rw [← (Prod.mk.inj hk).2]
      rfl
    have hsource : crossedHost.files.Steps (a.workspace.way "k") ([['w'], ['d']], []) := by
      have hw : crossedHost.files.Settled ([] ++ [['w']]) := .of_isDirectory (by decide)
      have hd : crossedHost.files.Settled ([['w']] ++ [['d']]) := .of_isDirectory (by decide)
      have hl : crossedHost.files.entryAt ([['w']] ++ [['k']]) = some (.link ['d']) := by decide
      exact (hw.steps [['k']]).trans (.head (.link hl) (hd.steps []))
    have htarget : crossedHost.files.Steps (a.workspace.way "m/n") ([['w'], ['m'], ['n']], []) := by
      have hw : crossedHost.files.Settled [['w']] := .of_isDirectory (by decide)
      have hm : crossedHost.files.entryAt ([['w']] ++ [['m']]) = none := by decide
      have hn : crossedHost.files.entryAt ([['w']] ++ [['m']] ++ [['n']]) = none := by decide
      have hend : crossedHost.files.Settled ([] ++ [['w'], ['m'], ['n']]) :=
        (hw.snoc (by decide) fun _ ht => nomatch hm.symm.trans ht).snoc (by decide)
          fun _ ht => nomatch hn.symm.trans ht
      exact hend.steps []
    exact not_movesBelowItself hr (hfiles ▸ hsource.not_meetsLoop) (hfiles ▸ htarget.not_meetsLoop)
  obtain ⟨move, hcarries, hkeeps, hcontents⟩ := keepsFiles_applyAll a hr hc hops hb
  exact ⟨hc, hops, hb, ⟨move, hcarries, hkeeps⟩, hcontents rfl, by decide, by decide⟩

/-- When the directory is moved to a place in it, to which the path leads behind the link to itself,
the renaming is reported as applied, and the file is lost. -/
theorem lost_crossedHost :
    let a : Applier := { workspace := ⟨[['w']]⟩ }
    let op : Operation Value := .rename (.text "d") (.text "l/../k/n")
    let after := (outcome (a.applyAll [op]) crossedHost).2
    a.NeverConsents ∧ op.kind = .rename ∧
      (outcome (a.applyAll [op]) crossedHost).1.map (·.applied) = .ok [op] ∧
      crossedHost.files.fileAt [['w'], ['d'], ['f']] = some [104, 105] ∧
      after.files.files = [] ∧ ¬ crossedHost.files.contents ≤ after.files.contents := by
  intro a op after
  have hgone : after.files.files = [] := by decide +kernel
  have hheld : crossedHost.files.files = [([['w'], ['d'], ['f']], [104, 105])] := by decide
  have hc : a.NeverConsents := fun _ hconfirm => nomatch hconfirm
  have hdone : a.isCarriedOut op crossedHost := by decide +kernel
  have happlied : (outcome (a.applyAll [op]) crossedHost).1.map (·.applied) = .ok [op] := by
    have hends : (outcome (a.applyNext {} op) crossedHost).1.toBool := by decide +kernel
    rw [applyAll, List.foldlM_cons, outcome_bind]
    rcases hnext : outcome (a.applyNext {} op) crossedHost with ⟨f | r, k⟩
    · simp [hnext, Except.toBool] at hends
    · exact congrArg Except.ok ((applied_of_applyNext hnext).trans (if_pos hdone))
  refine ⟨hc, rfl, happlied, by decide, hgone, ?_⟩
  rw [contents, contents, hgone, hheld]
  simp

end Applier

end ReplyLedger
