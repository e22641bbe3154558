import ReplyLedger.Proofs.Applier.Outside
import ReplyLedger.Proofs.FileSystem.Agreement
import ReplyLedger.Proofs.Host.Relating

/-!
# Operations look at the workspace only

Two hosts are alike for the operations in a workspace without links (`Host.Alike`) if their files
differ in one file at the most, which is not in the workspace, and the same has been asked on both.
What is shown does not matter. An operation comes to the same on both, and leaves them alike
(`respects_apply`), if its questions are answered by what has been asked. So does a batch, and the
one file keeps what it holds on either host (`Twins.applyAll`).
-/

namespace ReplyLedger

open FileSystem

/-- Two hosts on which operations below `root` come to the same: they differ in what they have
shown, and in the bytes of the file at `r`. -/
structure Host.Alike (root r : Location) (h₁ h₂ : Host) : Prop where
  files : AgreeBut r h₁.files h₂.files
  unlinked : h₁.files.Unlinked root
  outside : ¬ Below root r
  cwd : h₁.cwd = h₂.cwd
  asked : h₁.console.asked = h₂.console.asked
  journalTime : h₁.journalTime = h₂.journalTime
  journalClock : h₁.journalClock = h₂.journalClock

namespace Host.Alike

variable {root r p q : Location} {h₁ h₂ h₃ : Host}

theorem symm (h : Alike root r h₁ h₂) : Alike root r h₂ h₁ where
  files := h.files.symm
  unlinked := by
    refine ⟨h.files.isDirectory_iff.1 h.unlinked.isDirectory, fun p target hp hl => ?_⟩
    exact h.unlinked.not_link p target hp ((h.files.sameLinks p target).2 hl)
  outside := h.outside
  cwd := h.cwd.symm
  asked := h.asked.symm
  journalTime := h.journalTime.symm
  journalClock := h.journalClock.symm

theorem trans (h : Alike root r h₁ h₂) (h' : Alike root r h₂ h₃) : Alike root r h₁ h₃ :=
  ⟨h.files.trans h'.files, h.unlinked, h.outside, h.cwd.trans h'.cwd, h.asked.trans h'.asked,
    h.journalTime.trans h'.journalTime, h.journalClock.trans h'.journalClock⟩

/-- The one file is not on the way to a location in the workspace, nor in it. -/
theorem ne (h : Alike root r h₁ h₂) (hp : Below root p) (hq : q <+: p) : q ≠ r := by
  rintro rfl
  obtain ⟨bytes, hb⟩ := h.files.left
  have hd : ¬ h₁.files.IsDirectory q := by simp [IsDirectory, hb]
  exact h.outside (below_of_not_isDirectory h.unlinked.isDirectory hp hq hd)

theorem settled (h : Alike root r h₁ h₂) (hp : Below root p) (hs : ∀ s ∈ p, isPlain s) :
    h₁.files.Settled p := h.unlinked.settled hp.1 hs

/-- Files that agree as before, and have no links in the workspace, leave hosts alike. -/
theorem withFiles (h : Alike root r h₁ h₂) {fs gs : FileSystem} (hf : AgreeBut r fs gs)
    (hu : fs.Unlinked root) : Alike root r { h₁ with files := fs } { h₂ with files := gs } :=
  ⟨hf, hu, h.outside, h.cwd, h.asked, h.journalTime, h.journalClock⟩

/-- What is shown does not matter. -/
theorem shown (h : Alike root r h₁ h₂) {c₁ c₂ : Console} (hc : c₁.asked = h₁.console.asked)
    (hc' : c₂.asked = h₂.console.asked) :
    Alike root r { h₁ with console := c₁ } { h₂ with console := c₂ } :=
  ⟨h.files, h.unlinked, h.outside, h.cwd, by rw [hc, hc', h.asked], h.journalTime, h.journalClock⟩

/-- The entries of a journal are given the same time. -/
theorem journalReading (h : Alike root r h₁ h₂) : h₁.journalReading = h₂.journalReading := by
  rw [Host.journalReading, Host.journalReading, h.journalTime, h.journalClock]

theorem move (h : Alike root r h₁ h₂) (hp : Below root p) (hq : Below root q) :
    Alike root r (h₁.displace (.move p q)) (h₂.displace (.move p q)) := by
  refine ⟨h.files.move (fun hr => h.outside (hp.extend hr)) fun hr => h.outside (hq.extend hr),
    h.unlinked.move hp hq, h.outside, ?_, h.asked, h.journalTime, h.journalClock⟩
  exact congrArg (CurrentDirectory.displace · (.move p q)) h.cwd

end Host.Alike

namespace Action

variable {root r p q : Location} {α β : Type}

/-- An action that comes to the same on hosts that are alike, and leaves them alike. -/
abbrev Respects (root r : Location) (act : Action α) : Prop := Relates (Host.Alike root r) act

theorem respects_say (level : Level) (text : Text) : Respects root r (say level text) :=
  fun _ _ h => ⟨rfl, h.shown rfl rfl⟩

/-- What is answered depends on what has been asked. -/
theorem respects_ask (answer : List Text → Text → Bool) (question : Text) :
    Respects root r (ask (.noted answer) question) := by
  intro h₁ h₂ h
  have hask (h : Host) : outcome (ask (.noted answer) question) h =
      (.ok (answer h.console.asked question),
        { h with console.asked := h.console.asked ++ [question] }) := rfl
  rw [hask, hask, h.asked]
  exact ⟨rfl, h.files, h.unlinked, h.outside, h.cwd, rfl, h.journalTime, h.journalClock⟩

/-- An action that only looks respects what it sees to be the same. -/
theorem Looks.respects {act : Action α} (ha : Looks act)
    (hs : ∀ h₁ h₂, Host.Alike root r h₁ h₂ → (outcome act h₁).1 = (outcome act h₂).1) :
    Respects root r act := by
  intro h₁ h₂ h
  rw [ha h₁, ha h₂]
  exact ⟨hs h₁ h₂ h, h⟩

/-! ## Calls at locations in the workspace -/

theorem respects_status? (hb : Below root p) (hp : ∀ s ∈ p, isPlain s) (hq : q <+: p) :
    Respects root r (status? (FilePath.ofNames q).text) := by
  refine (looks_status? _).respects fun h₁ h₂ h => ?_
  have hstatus : h₁.files.status h₁.cwd (FilePath.ofNames q).text =
      h₂.files.status h₂.cwd (FilePath.ofNames q).text := by
    rw [h.cwd]
    exact h.files.status_eq h₂.cwd ((h.settled hb hp).above hq) (h.ne hb hq)
  unfold status?
  split
  · rfl
  · rw [outcome_bind_of_ok (outcome_get h₁), outcome_bind_of_ok (outcome_get h₂), hstatus]
    split <;> rfl

theorem respects_pathExists (hb : Below root p) (hp : ∀ s ∈ p, isPlain s) :
    Respects root r (pathExists (FilePath.ofNames p).text) :=
  (respects_status? hb hp (List.prefix_refl p)).bind fun _ => relates_pure _

theorem respects_isDirectory (hb : Below root p) (hp : ∀ s ∈ p, isPlain s) (hq : q <+: p) :
    Respects root r (isDirectory (FilePath.ofNames q).text) :=
  (respects_status? hb hp hq).bind fun _ => relates_pure _

theorem respects_isFile (hb : Below root p) (hp : ∀ s ∈ p, isPlain s) :
    Respects root r (isFile (FilePath.ofNames p).text) := by
  refine (respects_status? hb hp (List.prefix_refl p)).bind fun e => ?_
  split <;> exact relates_pure _

theorem respects_readText (hb : Below root p) (hp : ∀ s ∈ p, isPlain s) :
    Respects root r (readText (FilePath.ofNames p).text) := by
  have hcall : Respects root r (call (FilePath.ofNames p).text fun files cwd =>
      files.readFile cwd (FilePath.ofNames p).text) := by
    refine (looks_call _ _).respects fun h₁ h₂ h => ?_
    by_cases hn : hasNul (FilePath.ofNames p).text
    · rw [outcome_call_of_hasNul hn, outcome_call_of_hasNul hn]
    · rw [outcome_call (by simpa using hn), outcome_call (by simpa using hn), h.cwd,
        h.files.readFile_eq h₂.cwd (h.settled hb hp) (h.ne hb (List.prefix_refl p))]
  refine hcall.bind fun bytes => ?_
  split
  · exact relates_pure _
  · exact relates_fail _

/-- A call that comes to the same is respected by the action that makes it. -/
theorem respects_change {path : Text}
    {f : FileSystem → CurrentDirectory → Except Errno FileSystem}
    (hf : ∀ h₁ h₂, Host.Alike root r h₁ h₂ →
      AgreeBut.Results r (f h₁.files h₁.cwd) (f h₂.files h₂.cwd))
    (hu : ∀ h₁ h₂ files, Host.Alike root r h₁ h₂ → f h₁.files h₁.cwd = .ok files →
      files.Unlinked root) : Respects root r (change path f) := by
  intro h₁ h₂ h
  by_cases hn : hasNul path
  · rw [outcome_change_of_hasNul hn, outcome_change_of_hasNul hn]
    exact ⟨rfl, h⟩
  · rw [outcome_change (by simpa using hn), outcome_change (by simpa using hn)]
    have hr := hf h₁ h₂ h
    rcases hx : f h₁.files h₁.cwd with e | fs <;> rcases hy : f h₂.files h₂.cwd with e' | gs
    · rw [hx, hy] at hr
      obtain rfl : e = e' := hr
      exact ⟨rfl, h⟩
    · rw [hx, hy] at hr
      exact hr.elim
    · rw [hx, hy] at hr
      exact hr.elim
    · rw [hx, hy] at hr
      exact ⟨rfl, h.withFiles hr (hu h₁ h₂ fs h hx)⟩

theorem respects_changeFile (hb : Below root p) (hp : ∀ s ∈ p, isPlain s)
    (f : Bytes → Bytes) :
    Respects root r (change (FilePath.ofNames p).text fun files cwd =>
      files.changeFile cwd (FilePath.ofNames p).text f) := by
  refine respects_change (fun h₁ h₂ h => ?_) fun h₁ h₂ files h hc => ?_
  · rw [h.cwd]
    exact h.files.changeFile (h.settled hb hp) (h.ne hb (List.prefix_refl p)) f
  · obtain ⟨-, bytes, rfl, -⟩ := changeFile_eq_ok (h.settled hb hp) hc
    exact h.unlinked.put hb (by simp)

theorem respects_writeValue (hb : Below root p) (hp : ∀ s ∈ p, isPlain s)
    (content : Json.Value) : Respects root r (writeValue (FilePath.ofNames p).text content) := by
  cases content with
  | text t => exact respects_changeFile hb hp _
  | _ => exact (respects_changeFile hb hp _).bind fun _ => relates_fail _

theorem respects_unlink (hb : Below root p) (hp : ∀ s ∈ p, isPlain s) :
    Respects root r (change (FilePath.ofNames p).text fun files cwd =>
      files.unlink cwd (FilePath.ofNames p).text) := by
  refine respects_change (fun h₁ h₂ h => ?_) fun h₁ h₂ files h hc => ?_
  · rw [h.cwd]
    exact h.files.unlink (h.settled hb hp) (h.ne hb (List.prefix_refl p))
  · obtain ⟨-, rfl⟩ := unlink_eq_ok (h.settled hb hp) hc
    exact h.unlinked.erase hb

theorem respects_makeDirectory (hb : Below root p) (hp : ∀ s ∈ p, isPlain s) (hq : q <+: p) :
    Respects root r (makeDirectory (FilePath.ofNames q).text) := by
  refine respects_change (fun h₁ h₂ h => ?_) fun h₁ h₂ files h hc => ?_
  · rw [h.cwd]
    exact h.files.makeDirectory ((h.settled hb hp).above hq) (h.ne hb hq)
  · obtain ⟨-, hfree, rfl⟩ := makeDirectory_eq_ok ((h.settled hb hp).above hq) hc
    have hd : ¬ h₁.files.IsDirectory q := by simp [IsDirectory, hfree]
    exact h.unlinked.put (below_of_not_isDirectory h.unlinked.isDirectory hb hq hd) (by simp)

theorem respects_ensureDirectory (hb : Below root p) (hp : ∀ s ∈ p, isPlain s) (hq : q <+: p) :
    Respects root r (ensureDirectory (FilePath.ofNames q).text) := by
  refine relates_rescue (respects_makeDirectory hb hp hq) fun f => ?_
  refine (respects_isDirectory hb hp hq).bind fun there => ?_
  cases there with
  | true => exact relates_pure _
  | false => exact relates_fail _

theorem respects_ensureDirectoriesFrom (hb : Below root p) (hp : ∀ s ∈ p, isPlain s)
    {names : List Text} (hq : names.reverse <+: p) :
    Respects root r (ensureDirectoriesFrom .root names) := by
  induction names with
  | nil => exact respects_ensureDirectory hb hp hq
  | cons name above ih =>
    have habove : above.reverse <+: p := by
      rw [List.reverse_cons] at hq
      exact (List.prefix_append _ _).trans hq
    refine relates_rescue (respects_ensureDirectory hb hp hq) fun _ => ?_
    exact (ih habove).bind fun _ => respects_ensureDirectory hb hp hq

theorem respects_ensureDirectories (hb : Below root p) (hp : ∀ s ∈ p, isPlain s) :
    Respects root r (ensureDirectories (FilePath.ofNames p).parent) := by
  rw [FilePath.parent_ofNames, ensureDirectories]
  refine respects_ensureDirectoriesFrom hb hp ?_
  rw [List.reverse_reverse]
  exact List.dropLast_prefix p

end Action

namespace Applier

open ReplyLedger.Action Workspace

variable {a : Applier} {r : Location} {α : Type}

/-! ## Operations -/

/-- Whether the questions are answered by what has been asked. -/
def AnswersNoted (a : Applier) : Prop :=
  ∀ confirm, a.confirm = some confirm → ∃ answer, confirm = .noted answer

theorem respects_needText (v : Json.Value) : Respects a.workspace.root r (needText v) := by
  cases v with
  | text t => exact relates_pure t
  | _ => exact relates_fail _

/-- A path stands for the same location, below the root. -/
theorem respects_locate_bind (path : Text) {f : FilePath → Action α}
    (hf : ∀ p, Below a.workspace.root p → (∀ s ∈ p, isPlain s) →
      Respects a.workspace.root r (f (.ofNames p))) :
    Respects a.workspace.root r (a.locate path >>= f) := by
  intro h₁ h₂ h
  have hloc : a.workspace.locationOf h₁.files path = a.workspace.locationOf h₂.files path := by
    rw [locationOf, locationOf, h.files.resolve_eq]
  rw [locate, bind_map_left, outcome_bind, outcome_bind, outcome_resolveIn, outcome_resolveIn,
    ← hloc]
  rcases hl : a.workspace.locationOf h₁.files path with f' | p
  · exact ⟨rfl, h⟩
  · obtain ⟨hb, hs⟩ := below_of_locationOf h.unlinked hl
    exact hf p hb hs.isPlain h₁ h₂ h

theorem respects_locateFile_bind (path : Text) {f : FilePath → Action Unit}
    (hf : ∀ p, Below a.workspace.root p → (∀ s ∈ p, isPlain s) →
      Respects a.workspace.root r (f (.ofNames p))) :
    Respects a.workspace.root r (a.locateFile path >>= f) := by
  rw [locateFile, bind_assoc]
  refine respects_locate_bind path fun p hb hp => ?_
  rw [bind_assoc]
  refine (respects_isFile hb hp).bind fun there => ?_
  cases there with
  | true => exact hf p hb hp
  | false => exact fun h₁ h₂ h => ⟨rfl, h⟩

theorem respects_mayOverwrite (ha : a.AnswersNoted) (path : Text) :
    Respects a.workspace.root r (a.mayOverwrite path) := by
  unfold mayOverwrite
  split
  · rename_i confirm hc
    obtain ⟨answer, rfl⟩ := ha confirm hc
    exact respects_ask answer path
  · exact relates_pure false

/-- As many directories are missing above a location. -/
theorem missing_eq {root p : Location} {h₁ h₂ : Host} (h : Host.Alike root r h₁ h₂)
    (hb : Below root p) (hp : ∀ s ∈ p, isPlain s) {names : List Text} (hq : names.reverse <+: p) :
    missing h₁.files h₁.cwd .root names = missing h₂.files h₂.cwd .root names := by
  induction names with
  | nil => rfl
  | cons name above ih =>
    have habove : above.reverse <+: p := by
      rw [List.reverse_cons] at hq
      exact (List.prefix_append _ _).trans hq
    have hmake : AgreeBut.Results r
        (h₁.files.makeDirectory h₁.cwd (FilePath.ofNames (name :: above).reverse).text)
        (h₂.files.makeDirectory h₂.cwd (FilePath.ofNames (name :: above).reverse).text) := by
      rw [h.cwd]
      exact h.files.makeDirectory ((h.settled hb hp).above hq) (h.ne hb hq)
    rw [FilePath.ofNames] at hmake
    rw [missing, missing, ih habove]
    rcases hx : h₁.files.makeDirectory h₁.cwd (FilePath.text ⟨.root, (name :: above).reverse⟩)
      with e | fs <;>
    rcases hy : h₂.files.makeDirectory h₂.cwd (FilePath.text ⟨.root, (name :: above).reverse⟩)
      with e' | gs
    · rw [hx, hy] at hmake
      obtain rfl : e = e' := hmake
      rfl
    · rw [hx, hy] at hmake
      exact hmake.elim
    · rw [hx, hy] at hmake
      exact hmake.elim
    · rfl

theorem respects_makeRoom {p : Location} (hb : Below a.workspace.root p)
    (hp : ∀ s ∈ p, isPlain s) :
    Respects a.workspace.root r (a.makeRoom (FilePath.ofNames p)) := by
  refine Relates.bind ?_ fun _ => respects_ensureDirectories hb hp
  refine (looks_checkDepth a _).respects fun h₁ h₂ h => ?_
  have habove : p.dropLast.reverse.reverse <+: p := by
    rw [List.reverse_reverse]
    exact List.dropLast_prefix p
  have hdepth := missing_eq h hb hp habove
  rw [FilePath.parent_ofNames, checkDepth, outcome_bind_of_ok (outcome_get h₁),
    outcome_bind_of_ok (outcome_get h₂), FilePath.ofNames]
  simp only [hdepth]
  split <;> rfl

theorem respects_create (ha : a.AnswersNoted) (path : Text) (content : Json.Value) :
    Respects a.workspace.root r (a.create path content) := by
  refine respects_locate_bind path fun p hb hp => ?_
  have hend : Respects a.workspace.root r (a.makeRoom (FilePath.ofNames p) >>=
      fun _ => writeValue (FilePath.ofNames p).text content) :=
    (respects_makeRoom hb hp).bind fun _ => respects_writeValue hb hp content
  refine (respects_isDirectory hb hp (List.prefix_refl p)).bind fun there => relates_unless ?_
  refine (respects_pathExists hb hp).bind fun there => ?_
  dsimp only
  split
  · exact (respects_mayOverwrite ha path).bind fun agreed => relates_unless hend
  · exact hend

theorem respects_move {root p q : Location} (hb : Below root p) (hp : ∀ s ∈ p, isPlain s)
    (hb' : Below root q) (hq : ∀ s ∈ q, isPlain s) :
    Respects root r (a.move (FilePath.ofNames p).text (FilePath.ofNames q).text) := by
  intro h₁ h₂ h
  have hsp := h.settled hb hp
  have hsq := h.settled hb' hq
  have heq := h.files.relocateAll_eq h₁.cwd hsp (h.ne hb (List.prefix_refl p)) hsq
    (h.ne hb' (List.prefix_refl q))
  have h0 : p ≠ [] := by
    rintro rfl
    exact hb.2 (List.prefix_nil.1 hb.1).symm
  rw [move, outcome_bind_of_ok (outcome_get h₁), outcome_bind_of_ok (outcome_get h₂), ← h.cwd,
    ← heq]
  rcases hd : h₁.files.relocateAll h₁.cwd (FilePath.ofNames p).text (FilePath.ofNames q).text
    with fault | way
  · cases fault <;> exact ⟨rfl, h⟩
  · obtain rfl := relocateAll_eq_ok hsp hsq h0 hd
    exact ⟨rfl, h.move hb hb'⟩

theorem respects_rename (source : Text) (target : Json.Value) :
    Respects a.workspace.root r (a.rename source target) := by
  refine respects_locate_bind source fun p hb hp => ?_
  refine (respects_needText target).bind fun target => ?_
  refine respects_locate_bind target fun q hb' hq => ?_
  refine (respects_pathExists hb hp).bind fun there => relates_unless ?_
  refine (respects_pathExists hb' hq).bind fun taken => relates_unless ?_
  exact (respects_makeRoom hb' hq).bind fun _ => respects_move hb hp hb' hq

theorem respects_edit (path : Text) (search replacement : Json.Value) :
    Respects a.workspace.root r (a.edit path search replacement) := by
  refine respects_locateFile_bind path fun p hb hp => ?_
  refine (respects_readText hb hp).bind fun content => ?_
  refine (respects_needText search).bind fun search => relates_unless ?_
  refine (respects_needText replacement).bind fun replacement => ?_
  exact (respects_changeFile hb hp _).bind fun _ => respects_say _ _

/-- **An operation comes to the same on hosts that are alike.** -/
theorem respects_apply (ha : a.AnswersNoted) (op : Operation Json.Value) :
    Respects a.workspace.root r (a.apply op) := by
  cases op with
  | create file content =>
    exact (respects_needText file).bind fun path => respects_create ha path content
  | delete file =>
    refine (respects_needText file).bind fun path => ?_
    exact respects_locateFile_bind path fun p hb hp => respects_unlink hb hp
  | rename source target =>
    exact (respects_needText source).bind fun path => respects_rename path target
  | edit file search replacement =>
    exact (respects_needText file).bind fun path => respects_edit path search replacement
  | overwrite file content =>
    refine (respects_needText file).bind fun path => ?_
    exact respects_locateFile_bind path fun p hb hp => respects_writeValue hb hp content

/-! ## Batches -/

variable {record : Location} {path : FilePath} {b c : Bytes} {h₁ h₂ : Host}

theorem AnswersNoted.answers (ha : a.AnswersNoted) : a.Answers := by
  intro confirm hc question console
  obtain ⟨answer, rfl⟩ := ha confirm hc
  exact Option.some_ne_none _

/-- Two hosts that are alike but for the bytes of a record outside the workspace, `b` on the one and
`c` on the other. The journal, if there is one, is another file outside. -/
structure Twins (a : Applier) (record : Location) (path : FilePath) (b c : Bytes)
    (h₁ h₂ : Host) : Prop where
  alike : Host.Alike a.workspace.root record h₁ h₂
  keepsFile : h₁.KeepsFile a.workspace.root path record
  journal : ∀ j, a.journal = some j →
    ∃ p, p ≠ record ∧ h₁.KeepsFile a.workspace.root j.path p
  left : h₁.files.entryAt record = some (.file b)
  right : h₂.files.entryAt record = some (.file c)

/-- A file outside is kept on the other host, too. -/
theorem keepsFile_of_alike {root r p : Location} {path : FilePath}
    (h : Host.Alike root r h₁ h₂) (hk : h₁.KeepsFile root path p) : h₂.KeepsFile root path p := by
  refine hk.after (fun q e _ he hf => h.files.entryAt_eq_some hf he) ?_ fun e he => ?_
  · rw [h.cwd]
    exact .refl root h₂.cwd
  · by_cases hp : p = r
    · subst hp
      obtain ⟨bytes, hb⟩ := h.files.right
      exact ⟨bytes, Option.some.inj (he.symm.trans hb)⟩
    · exact hk.free e ((h.files.entryAt_eq p hp).trans he)

/-- What is confined to the workspace on both hosts keeps them twins, if it keeps them alike. -/
theorem Twins.confined (ht : a.Twins record path b c h₁ h₂) {h₁' h₂' : Host}
    (ha : Host.Alike a.workspace.root record h₁' h₂')
    (hc : Confined a.workspace.root h₁.files h₁'.files)
    (hcwd : h₁.cwd.Stays a.workspace.root h₁'.cwd)
    (hc' : Confined a.workspace.root h₂.files h₂'.files) :
    a.Twins record path b c h₁' h₂' where
  alike := ha
  keepsFile := ht.keepsFile.confined hc hcwd
  journal := by
    intro j hj
    obtain ⟨p, hp, hk⟩ := ht.journal j hj
    exact ⟨p, hp, hk.confined hc hcwd⟩
  left := (hc _ ht.alike.outside).trans ht.left
  right := (hc' _ ht.alike.outside).trans ht.right

/-- Notes are taken in the same way. -/
theorem Twins.note (ht : a.Twins record path b c h₁ h₂) (entry : Text) :
    ∃ h₁' h₂', outcome (a.note entry) h₁ = (.ok (), h₁') ∧
      outcome (a.note entry) h₂ = (.ok (), h₂') ∧ a.Twins record path b c h₁' h₂' := by
  unfold Applier.note
  split
  · rename_i j hj
    obtain ⟨p, hp, hk⟩ := ht.journal j hj
    have hk' := keepsFile_of_alike ht.alike hk
    refine ⟨_, _, hk.outcome_write entry, hk'.outcome_write entry, ?_⟩
    have hfile : h₁.files.fileAt p = h₂.files.fileAt p :=
      fileAt_congr (ht.alike.files.entryAt_eq p hp)
    rw [← hfile, ← ht.alike.journalReading]
    have ha := ht.alike
    refine ⟨⟨ha.files.put hp _, hk.unlinked ha.unlinked _, ha.outside, ha.cwd, ha.asked,
      ha.journalTime, congrArg List.tail ha.journalClock⟩, ?_, fun j' hj' => ?_, ?_, ?_⟩
    · exact ht.keepsFile.put hk _ _ _
    · obtain rfl := Option.some.inj (hj.symm.trans hj')
      exact ⟨p, hp, hk.put hk _ _ _⟩
    · exact (entryAt_put_of_ne _ hp.symm).trans ht.left
    · exact (entryAt_put_of_ne _ hp.symm).trans ht.right
  · exact ⟨_, _, rfl, rfl, ht.confined (ht.alike.shown rfl rfl) (.refl _ _) (.refl _ _) (.refl _ _)⟩

/-- One operation of a batch comes to the same on both hosts, unless it is too deep. -/
theorem Twins.applyNext (ht : a.Twins record path b c h₁ h₂) (ha : a.AnswersNoted)
    (op : Operation Text) :
    (∃ r h₁' h₂', outcome (a.applyNext {} (op.map .text)) h₁ = (.ok r, h₁') ∧
      outcome (a.applyNext {} (op.map .text)) h₂ = (.ok r, h₂') ∧
      a.Twins record path b c h₁' h₂') ∨
      a.nesting ≠ none ∧ (outcome (a.applyNext {} (op.map .text)) h₁).1 = .error .tooDeep ∧
        (outcome (a.applyNext {} (op.map .text)) h₂).1 = .error .tooDeep := by
  obtain ⟨hsame, halike⟩ := respects_apply ha (op.map .text) h₁ h₂ ht.alike
  have hmeets := meets_apply ht.alike.unlinked op h₁ rfl
  have hmeets' := meets_apply ht.alike.symm.unlinked op h₂ rfl
  rw [outcome_applyNext, outcome_applyNext]
  rcases happly : outcome (a.apply (op.map .text)) h₁ with ⟨x, h₁'⟩
  rcases happly' : outcome (a.apply (op.map .text)) h₂ with ⟨y, h₂'⟩
  rw [happly, happly'] at hsame halike
  rw [happly] at hmeets
  rw [happly'] at hmeets'
  obtain rfl : x = y := hsame
  cases x with
  | error f =>
    obtain ⟨hends | ⟨-, hn⟩ | ⟨rfl, hd⟩, hmade⟩ := hmeets
    · have htwins := ht.confined halike hmade.confined (fun _ => hmade.cwd) hmeets'.2.confined
      obtain ⟨k₁, k₂, ho, ho', hk⟩ := htwins.note _
      simp only [hends, if_true]
      rw [outcome_bind_of_ok ho, outcome_bind_of_ok ho']
      exact .inl ⟨_, _, _, rfl, rfl, hk⟩
    · exact absurd ha.answers hn
    · exact .inr ⟨hd, rfl, rfl⟩
  | ok _ =>
    have htwins := ht.confined halike hmeets.confined hmeets.cwd hmeets'.confined
    obtain ⟨k₁, k₂, ho, ho', hk⟩ := htwins.note _
    simp only
    rw [outcome_bind_of_ok ho, outcome_bind_of_ok ho']
    exact .inl ⟨_, _, _, rfl, rfl, hk⟩

/-- **A batch comes to the same on both hosts**, and leaves the records as they are, unless it is too
deep. -/
theorem Twins.applyAll (ht : a.Twins record path b c h₁ h₂) (ha : a.AnswersNoted)
    (ops : List (Operation Text)) :
    (∃ r h₁' h₂', outcome (a.applyAll (ops.map (·.map .text))) h₁ = (.ok r, h₁') ∧
      outcome (a.applyAll (ops.map (·.map .text))) h₂ = (.ok r, h₂') ∧
      a.Twins record path b c h₁' h₂') ∨
      a.IsTooDeep (ops.map (·.map .text)) h₁ ∧ a.IsTooDeep (ops.map (·.map .text)) h₂ := by
  induction ops generalizing h₁ h₂ with
  | nil => exact .inl ⟨{}, h₁, h₂, rfl, rfl, ht⟩
  | cons op ops ih =>
    rw [List.map_cons]
    rcases ht.applyNext ha op with ⟨r, h₁', h₂', ho, ho', ht'⟩ | ⟨hd, ho, ho'⟩
    · rcases ih ht' with ⟨s, h₁'', h₂'', hs, hs', ht''⟩ | ⟨hdeep, hdeep'⟩
      · refine .inl ⟨r ++ s, h₁'', h₂'', ?_, ?_, ht''⟩
        · rw [applyAll_cons, outcome_bind_of_ok ho, outcome_map, hs]
          rfl
        · rw [applyAll_cons, outcome_bind_of_ok ho', outcome_map, hs']
          rfl
      · exact .inr ⟨.later ho hdeep, .later ho' hdeep'⟩
    · exact .inr ⟨.first hd ho, .first hd ho'⟩

end Applier

end ReplyLedger
