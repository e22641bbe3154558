import ReplyLedger.Proofs.Applier.Locating
import ReplyLedger.Proofs.FileSystem.Ancestors
import ReplyLedger.Proofs.Host.NewDirectories
import ReplyLedger.Proofs.Text.Decoding
import ReplyLedger.Proofs.Text.Replacing

/-!
# What an operation does, in full

`Workspace.Effect` says of each kind of operation what stands where after it, by what stood where
before, and by the locations that its paths stood for: a link is never at such a location, so it is
the file or the directory that a link leads to which is removed, moved or rewritten. Without loops,
an operation that is carried out has that effect (`Applier.effect_of_apply`).

The locations are settled when they are found, and making the directories that are missing above the
last of them leaves them settled. So the call that follows acts at the locations themselves.
-/

namespace ReplyLedger

open FileSystem

/-! ## Effects -/

/-- What the files are after an operation has been carried out on the host `h`. -/
def Workspace.Effect (w : Workspace) (h : Host) (after : FileSystem) : Operation Text → Prop
  /- The file is made, or overwritten, and the missing directories above it are made. -/
  | .create path content => ∃ q, w.Locates h path q ∧
      (h.files.entryAt q = none ∨ ∃ bytes, h.files.entryAt q = some (.file bytes)) ∧
      ∀ r, after.entryAt r =
        if r = q then some (.file (Utf8.encode content)) else h.files.withAncestors q r
  /- The file is removed. -/
  | .delete path => ∃ q bytes, w.Locates h path q ∧ h.files.entryAt q = some (.file bytes) ∧
      ∀ r, after.entryAt r = if r = q then none else h.files.entryAt r
  /- The entry at `p` is moved to `q` with all below it. -/
  | .rename source target => ∃ p q e, w.Locates h source p ∧ w.Locates h target q ∧
      h.files.entryAt p = some e ∧ (∀ content, e ≠ .link content) ∧ h.files.entryAt q = none ∧
      (∀ t, after.entryAt (q ++ t) = h.files.entryAt (p ++ t)) ∧
      (∀ t, after.entryAt (p ++ t) = none) ∧
      ∀ r, ¬ p <+: r → ¬ q <+: r → after.entryAt r = h.files.withAncestors q r
  /- Every occurrence in the text of the file is replaced, and there is one. -/
  | .edit path search replacement => ∃ q old new, w.Locates h path q ∧
      h.files.entryAt q = some (.file (Utf8.encode old)) ∧
      search ≠ [] ∧ search <:+: old ∧ Text.Rewritten search replacement old new ∧
      ∀ r, after.entryAt r = if r = q then some (.file (Utf8.encode new)) else h.files.entryAt r
  /- The file is given other contents. -/
  | .overwrite path content => ∃ q bytes, w.Locates h path q ∧
      h.files.entryAt q = some (.file bytes) ∧
      ∀ r, after.entryAt r =
        if r = q then some (.file (Utf8.encode content)) else h.files.entryAt r

namespace Action

variable {α : Type} {h before : Host} {p q : Location}

/-! ## What is seen at a settled location -/

theorem outcome_status?_of_entryAt (hp : h.files.Settled p) {e : Entry}
    (he : h.files.entryAt p = some e) :
    outcome (status? (FilePath.ofNames p).text) h = (.ok (some e), h) :=
  outcome_status?_of_status (FilePath.hasNul_ofNames hp.isPlain) (status_of_entryAt hp he)

/-- Where nothing is said to be, nothing is. -/
theorem entryAt_of_not_pathExists (hp : h.files.Settled p)
    (ho : outcome (pathExists (FilePath.ofNames p).text) h = (.ok false, h)) :
    h.files.entryAt p = none := by
  refine Option.eq_none_iff_forall_not_mem.2 fun e he => ?_
  exact status_of_not_pathExists (FilePath.hasNul_ofNames hp.isPlain) (by rw [ho]) e
    (status_of_entryAt hp he)

/-- What is said to be a file is one. -/
theorem entryAt_of_isFile (hp : h.files.Settled p)
    (ho : outcome (isFile (FilePath.ofNames p).text) h = (.ok true, h)) :
    ∃ bytes, h.files.entryAt p = some (.file bytes) := by
  have hh := looks_status? (FilePath.ofNames p).text h
  rw [isFile, outcome_bind] at ho
  rcases hst : outcome (status? (FilePath.ofNames p).text) h with ⟨_ | _ | e, h'⟩
  · simp [hst] at ho
  · simp [hst] at ho
  · cases e with
    | directory => simp [hst] at ho
    | file bytes => exact ⟨bytes, entryAt_of_status hp (status_of_status? (by rw [hst]))⟩
    | link target => simp [hst] at ho

/-- A text that is read from a file is the text of its bytes. -/
theorem encode_of_readText (hp : h.files.Settled p) {bytes : Bytes} {t : Text}
    (he : h.files.entryAt p = some (.file bytes))
    (ho : outcome (readText (FilePath.ofNames p).text) h = (.ok t, h)) : bytes = Utf8.encode t := by
  have hread : h.files.readFile h.cwd (FilePath.ofNames p).text = .ok bytes := by
    rw [readFile, status_of_entryAt hp he]
    rfl
  have hnul := FilePath.hasNul_ofNames hp.isPlain
  rw [readText, readTextWith, outcome_bind_of_ok (outcome_call_of_ok hnul hread)] at ho
  simp only [Utf8.decodeWith] at ho
  rcases hd : Utf8.decode bytes with fault | t'
  · simp [hd] at ho
  · obtain rfl : t' = t := by simpa [hd] using ho
    exact (Utf8.encode_of_decode hd).symm

/-! ## Making what is missing -/

/-- Making the directories above a settled location makes directories on the way to it only. -/
theorem meets_ensureDirectories_above (hp : before.files.Settled p) :
    Meets (fun h => before.files.GainsDirectories (· <+: p.dropLast) h.files)
      (ensureDirectories (FilePath.ofNames p).parent)
      (fun _ h => before.files.GainsDirectories (· <+: p.dropLast) h.files) (fun _ _ => True) := by
  rw [FilePath.parent_ofNames, ensureDirectories]
  refine (meets_ensureDirectoriesFrom_of (K := fun _ => True) (D := fun _ _ => True)
    fun above habove => ?_).mono (fun _ hh => hh) (fun _ _ hh => hh.1) fun _ _ _ => trivial
  have hpre : above.reverse <+: p.dropLast := by
    rw [← List.reverse_reverse p.dropLast]
    exact List.reverse_prefix.2 habove
  refine meets_ensureDirectory_of ?_ (fun h hh _ => ⟨hh, trivial⟩) fun _ _ _ => trivial
  refine (meets_change fun h files hh hc => ?_).mono (fun _ hh => hh) (fun _ _ hh => hh)
    fun _ _ hh => ⟨trivial, hh.2⟩
  obtain ⟨-, hfree, rfl⟩ := makeDirectory_eq_ok ((hh.settled hp).dropLast.above hpre) hc
  exact ⟨hh.put hfree hpre, trivial⟩

end Action

namespace Applier

open ReplyLedger.Action Workspace Json

variable {a : Applier} {before : Host} {path : Text} {α : Type} {p q : Location}

/-- Without loops, the path of an operation stands for a settled location. -/
theorem settled_of_locates (hr : ∀ s ∈ a.workspace.root, isPlain s) (hf : before.files.LoopFree)
    (hl : a.workspace.Locates before path p) : p ≠ [] ∧ before.files.Settled p :=
  ⟨ne_nil_of_locates hl, (end_of_locates (slash_not_mem hr) hl (hf.not_meetsLoop _)).1⟩

variable {Q : α → Host → Prop} {R : Unit → Host → Prop}

theorem meets_located_bind (hr : ∀ s ∈ a.workspace.root, isPlain s) (hf : before.files.LoopFree)
    {f : FilePath → Action α}
    (hm : ∀ p, a.workspace.Locates before path p → p ≠ [] → before.files.Settled p →
      Meets (· = before) (f (.ofNames p)) Q fun _ _ => True) :
    Meets (· = before) (a.locate path >>= f) Q fun _ _ => True := by
  refine meets_locate_bind (fun _ _ => trivial) fun p hl => ?_
  obtain ⟨h0, hp⟩ := settled_of_locates hr hf hl
  exact hm p hl h0 hp

/-- A file that is located is one. -/
theorem meets_locatedFile_bind (hr : ∀ s ∈ a.workspace.root, isPlain s)
    (hf : before.files.LoopFree) {f : FilePath → Action Unit}
    (hm : ∀ p bytes, a.workspace.Locates before path p → before.files.Settled p →
      before.files.entryAt p = some (.file bytes) →
      Meets (· = before) (f (.ofNames p)) R fun _ _ => True) :
    Meets (· = before) (a.locateFile path >>= f) R fun _ _ => True := by
  rw [locateFile, bind_assoc]
  refine meets_located_bind hr hf fun p hl _ hp => ?_
  rw [bind_assoc]
  refine (looks_isFile _).meets_bind (endsOnly_isFile _) (fun _ _ _ _ => trivial) fun there => ?_
  cases there with
  | true =>
    rw [if_pos rfl, pure_bind]
    rintro h ⟨rfl, ho⟩
    obtain ⟨bytes, he⟩ := entryAt_of_isFile hp ho
    exact hm p bytes hl hp he h rfl
  | false => exact fun _ _ => trivial

/-- Writing to a file changes what it holds, and nothing else. -/
theorem meets_writeText_over (hp : before.files.Settled p) (t : Text) :
    Meets (· = before) (writeText (FilePath.ofNames p).text t)
      (fun _ h => ∀ r, h.files.entryAt r =
        if r = p then some (.file (Utf8.encode t)) else before.files.entryAt r)
      fun _ _ => True := by
  refine (meets_change fun h files hh hc => ?_).mono (fun _ hh => hh) (fun _ _ hh => hh)
    fun _ _ _ => trivial
  subst hh
  obtain ⟨ha, bytes, rfl, -⟩ := changeFile_eq_ok hp hc
  exact fun r => entryAt_put ha _ r

theorem meets_makeRoom_above (hp : before.files.Settled p) :
    Meets (fun h => before.files.GainsDirectories (· <+: p.dropLast) h.files)
      (a.makeRoom (FilePath.ofNames p))
      (fun _ h => before.files.GainsDirectories (· <+: p.dropLast) h.files) (fun _ _ => True) :=
  ((looks_checkDepth a _).keeps.mono (fun _ hh => hh) (fun _ _ hh => hh) fun _ _ _ => trivial).bind
    fun _ => meets_ensureDirectories_above hp

/-- A move to a free place takes the entry there with all below it. -/
theorem meets_move_over (hp : before.files.Settled p) (hq : before.files.Settled q) (hp0 : p ≠ [])
    (hq0 : q ≠ []) {e : Entry} (he : before.files.entryAt p = some e)
    (hfree : before.files.entryAt q = none) :
    Meets (fun h => before.files.GainsDirectories (· <+: q.dropLast) h.files)
      (a.move (FilePath.ofNames p).text (FilePath.ofNames q).text)
      (fun _ h => (∀ t, h.files.entryAt (q ++ t) = before.files.entryAt (p ++ t)) ∧
        (∀ t, h.files.entryAt (p ++ t) = none) ∧
        ∀ r, ¬ p <+: r → ¬ q <+: r → h.files.entryAt r = before.files.withAncestors q r)
      fun _ _ => True := by
  intro h hh
  rw [move, outcome_bind_of_ok (outcome_get h)]
  rcases hmove : h.files.relocateAll h.cwd (FilePath.ofNames p).text (FilePath.ofNames q).text
    with fault | way
  · cases fault <;> trivial
  · have hfree' : h.files.entryAt q = none := (hh.entryAt_self hq0).trans hfree
    obtain ⟨rfl, hcan, -⟩ := relocateAll_eq_move (hh.settled hp) (hh.settled hq) hp0 hfree' hmove
    have hmade {r : Location} (hr : r ≠ q) := hh.entryAt_of_accepts hcan.2.1 hr
    refine ⟨fun t => ?_, fun t => ?_, fun r hpr hqr => ?_⟩
    · -- the directories on the way to `q` are not below `p`
      have hnot : ¬ p ++ t <+: q := fun ht => hcan.2.2 ((List.prefix_append p t).trans ht)
      have hne : p ++ t ≠ q := fun hpt => hnot (hpt ▸ List.prefix_refl q)
      rw [← withAncestors_of_apart hnot, ← hmade hne]
      exact entryAt_move_append hcan t
    · refine (entryAt_move hcan fun hqt => ?_).trans (if_pos (List.prefix_append p t))
      rcases List.prefix_or_prefix_of_prefix hqt (List.prefix_append p t) with ⟨u, rfl⟩ | hpq
      · by_cases hu : u = []
        · exact hcan.2.2 (by simp [hu])
        · have hgone := entryAt_append_eq_none hcan.2.1.free hu
          rw [hh.entryAt_eq he] at hgone
          simp at hgone
      · exact hcan.2.2 hpq
    · have hne : r ≠ q := fun hrq => hqr (hrq ▸ List.prefix_refl q)
      rw [← hmade hne]
      exact (entryAt_move hcan hqr).trans (if_neg hpr)

/-! ## Operations -/

theorem effect_create (hr : ∀ s ∈ a.workspace.root, isPlain s) (hf : before.files.LoopFree)
    (path content : Text) :
    Meets (· = before) (a.create path (.text content))
      (fun _ h => a.workspace.Effect before h.files (.create path content)) fun _ _ => True := by
  refine meets_located_bind hr hf fun q hl h0 hq => ?_
  refine Meets.mono (P := fun h => before.files.GainsDirectories (· <+: q.dropLast) h.files) ?_
    (fun _ hh => hh ▸ .refl _ _) (fun _ _ hh => hh) fun _ _ hh => hh
  have hend : Meets (fun h => before.files.GainsDirectories (· <+: q.dropLast) h.files)
      (a.makeRoom (FilePath.ofNames q) >>= fun _ =>
        writeValue (FilePath.ofNames q).text (.text content))
      (fun _ h => a.workspace.Effect before h.files (.create path content)) fun _ _ => True := by
    refine (meets_makeRoom_above hq).bind fun _ => ?_
    refine (meets_change fun h files hh hc => ?_).mono (fun _ hh => hh) (fun _ _ hh => hh)
      fun _ _ _ => trivial
    obtain ⟨ha, bytes, rfl, hwas⟩ := changeFile_eq_ok (hh.settled hq) hc
    rw [hh.entryAt_self h0] at hwas
    refine ⟨q, hl, hwas.symm.imp (fun hn => hn.1) fun he => ⟨bytes, he⟩, fun r => ?_⟩
    rw [entryAt_put ha]
    split
    · rfl
    · rename_i hne
      exact hh.entryAt_of_accepts ha hne
  refine (looks_isDirectory _).meets_bind (endsOnly_isDirectory _) (fun _ _ _ _ => trivial)
    fun there => Meets.unless (fun _ _ _ => trivial) fun _ => ?_
  refine (looks_pathExists _).meets_bind (endsOnly_pathExists _) (fun _ _ _ _ => trivial)
    fun there => ?_
  refine Meets.mono (P := fun h => before.files.GainsDirectories (· <+: q.dropLast) h.files) ?_
    (fun _ hh => hh.1.1) (fun _ _ hh => hh) fun _ _ hh => hh
  dsimp only
  split
  · refine ((ensures_mayOverwrite a path).meets.mono (fun _ hh => hh) (fun _ _ hh => hh)
      fun _ _ _ => trivial).bind fun agreed => Meets.unless (fun _ _ _ => trivial) fun _ => hend
  · exact hend

theorem effect_delete (hr : ∀ s ∈ a.workspace.root, isPlain s) (hf : before.files.LoopFree)
    (path : Text) : Meets (· = before) (a.delete path)
      (fun _ h => a.workspace.Effect before h.files (.delete path)) fun _ _ => True := by
  refine meets_locatedFile_bind hr hf fun q bytes hl hq he => ?_
  refine (meets_change fun h files hh hc => ?_).mono (fun _ hh => hh) (fun _ _ hh => hh)
    fun _ _ _ => trivial
  subst hh
  obtain ⟨-, rfl⟩ := unlink_eq_ok hq hc
  exact ⟨q, bytes, hl, he, fun r => entryAt_erase (by simp [IsDirectory, he]) r⟩

theorem effect_overwrite (hr : ∀ s ∈ a.workspace.root, isPlain s) (hf : before.files.LoopFree)
    (path content : Text) : Meets (· = before) (a.overwrite path (.text content))
      (fun _ h => a.workspace.Effect before h.files (.overwrite path content))
      fun _ _ => True :=
  meets_locatedFile_bind hr hf fun q bytes hl hq he => (meets_writeText_over hq content).mono
    (fun _ hh => hh) (fun _ _ hh => ⟨q, bytes, hl, he, hh⟩) fun _ _ hh => hh

theorem effect_edit (hr : ∀ s ∈ a.workspace.root, isPlain s) (hf : before.files.LoopFree)
    (path search replacement : Text) :
    Meets (· = before) (a.edit path (.text search) (.text replacement))
      (fun _ h => a.workspace.Effect before h.files (.edit path search replacement))
      fun _ _ => True := by
  refine meets_locatedFile_bind hr hf fun q bytes hl hq he => ?_
  refine (looks_readText _).meets_bind (endsOnly_readText _) (fun _ _ _ _ => trivial)
    fun old => ?_
  simp only [needText_text, pure_bind]
  refine Meets.unless (fun _ _ _ => trivial) fun hcount => ?_
  rintro h ⟨rfl, ho⟩
  obtain rfl := encode_of_readText hq he ho
  rw [Text.occurrences_eq_zero_iff, not_or, Decidable.not_not] at hcount
  have hnew : Text.Rewritten search replacement old (Text.replaceAll search replacement old) :=
    Text.rewritten_replaceAll hcount.1 old
  refine Meets.bind (M := fun _ after =>
      a.workspace.Effect h after.files (.edit path search replacement))
    ((meets_writeText_over hq _).mono (fun _ hh => hh) (fun _ after hh => ?_) fun _ _ hh => hh)
    (fun _ => meets_say fun _ hh => hh) h rfl
  exact ⟨q, old, _, hl, he, hcount.1, hcount.2, hnew, hh⟩

theorem effect_rename (hr : ∀ s ∈ a.workspace.root, isPlain s) (hf : before.files.LoopFree)
    (source target : Text) : Meets (· = before) (a.rename source (.text target))
      (fun _ h => a.workspace.Effect before h.files (.rename source target)) fun _ _ => True := by
  refine meets_located_bind hr hf fun p hl hp0 hp => ?_
  simp only [needText_text, pure_bind]
  refine meets_located_bind hr hf fun q hl' hq0 hq => ?_
  refine (looks_pathExists _).meets_bind (endsOnly_pathExists _) (fun _ _ _ _ => trivial)
    fun there => Meets.unless (fun _ _ _ => trivial) fun hthere => ?_
  refine (looks_pathExists _).meets_bind (endsOnly_pathExists _) (fun _ _ _ _ => trivial)
    fun taken => Meets.unless (fun _ _ _ => trivial) fun htaken => ?_
  rintro h ⟨⟨rfl, ho⟩, ho'⟩
  obtain rfl : there = true := by simpa using hthere
  obtain rfl : taken = false := by simpa using htaken
  obtain ⟨e, he⟩ := entryAt_of_pathExists hp ho
  have hfree := entryAt_of_not_pathExists hq ho'
  refine ((meets_makeRoom_above hq).bind fun _ => (meets_move_over hp hq hp0 hq0 he
    hfree).mono (fun _ hh => hh) (fun _ after hh => ?_) fun _ _ hh => hh) h (.refl _ _)
  exact ⟨p, q, e, hl, hl', he, fun content hc => hp.not_link p content (List.prefix_refl p) (hc ▸ he),
    hfree, hh⟩

/-! ## Fields that are no texts -/

theorem doneOnlyIf_needText (v : Value) : DoneOnlyIf (∃ t, v = .text t) (needText v) := by
  intro h t ho
  cases v with
  | text t => exact ⟨t, rfl⟩
  | _ => simp [needText] at ho

theorem doneOnlyIf_writeValue (path : Text) (v : Value) :
    DoneOnlyIf (∃ t, v = .text t) (writeValue path v) := by
  cases v with
  | text t => exact fun _ _ _ => ⟨t, rfl⟩
  | _ => exact .bind fun _ _ _ ho => by simp at ho

theorem doneOnlyIf_create (a : Applier) (path : Text) (content : Value) :
    DoneOnlyIf (∃ t, content = .text t) (a.create path content) := by
  have hend (target : FilePath) : DoneOnlyIf (∃ t, content = .text t)
      (a.makeRoom target >>= fun _ => writeValue target.text content) :=
    .bind fun _ => doneOnlyIf_writeValue _ content
  refine .bind fun target => .bind fun there => .unless (.bind fun there => ?_)
  dsimp only
  split
  · exact .bind fun agreed => .unless (hend target)
  · exact hend target

/-- **An operation that is carried out has texts for its fields.** -/
theorem exists_text_of_apply {op : Operation Value} {h h' : Host}
    (ho : outcome (a.apply op) h = (.ok (), h')) : ∃ given : Operation Text, op = given.map .text := by
  have hdone {G : Prop} (hG : DoneOnlyIf G (a.apply op)) : G := hG h () (by rw [ho])
  cases op with
  | create file content =>
    obtain ⟨path, rfl⟩ := hdone ((doneOnlyIf_needText file).bind_left _)
    obtain ⟨t, rfl⟩ := hdone (doneOnlyIf_create a path content)
    exact ⟨.create path t, rfl⟩
  | delete file =>
    obtain ⟨path, rfl⟩ := hdone ((doneOnlyIf_needText file).bind_left _)
    exact ⟨.delete path, rfl⟩
  | rename source target =>
    obtain ⟨path, rfl⟩ := hdone ((doneOnlyIf_needText source).bind_left _)
    obtain ⟨t, rfl⟩ := hdone (.bind fun _ => .bind fun _ => (doneOnlyIf_needText target).bind_left _)
    exact ⟨.rename path t, rfl⟩
  | edit file search replacement =>
    obtain ⟨path, rfl⟩ := hdone ((doneOnlyIf_needText file).bind_left _)
    obtain ⟨s, rfl⟩ := hdone (.bind fun _ => .bind fun _ => .bind fun _ =>
      (doneOnlyIf_needText search).bind_left _)
    obtain ⟨t, rfl⟩ := hdone (.bind fun _ => .bind fun _ => .bind fun _ => .bind fun _ =>
      .unless ((doneOnlyIf_needText replacement).bind_left _))
    exact ⟨.edit path s t, rfl⟩
  | overwrite file content =>
    obtain ⟨path, rfl⟩ := hdone ((doneOnlyIf_needText file).bind_left _)
    obtain ⟨t, rfl⟩ := hdone (.bind fun _ => .bind fun _ => doneOnlyIf_writeValue _ content)
    exact ⟨.overwrite path t, rfl⟩

/-- **An operation that is carried out has its effect.** Its fields are texts then, and, without
loops, the files after it differ from those before it as its effect says, and in nothing else. -/
theorem effect_of_apply (a : Applier) (op : Operation Value) {h h' : Host}
    (hr : ∀ s ∈ a.workspace.root, isPlain s) (hf : h.files.LoopFree)
    (ho : outcome (a.apply op) h = (.ok (), h')) :
    ∃ given : Operation Text, op = given.map .text ∧ a.workspace.Effect h h'.files given := by
  obtain ⟨given, rfl⟩ := exists_text_of_apply ho
  have heffect : Meets (· = h) (a.apply (given.map .text))
      (fun _ after => a.workspace.Effect h after.files given) fun _ _ => True := by
    cases given with
    | create path content => exact effect_create hr hf path content
    | delete path => exact effect_delete hr hf path
    | rename source target => exact effect_rename hr hf source target
    | edit path search replacement => exact effect_edit hr hf path search replacement
    | overwrite path content => exact effect_overwrite hr hf path content
  have hafter := heffect h rfl
  rw [ho] at hafter
  exact ⟨given, rfl, hafter⟩

/-! ## A directory that is moved through a link -/

/-- A workspace `/w` with a directory `a` that holds a directory with a file, and a link to `a`. -/
def movingHost : Host := .ofFiles <|
  ((((FileSystem.empty.put [['w']] .directory).put [['w'], ['a']] .directory).put
    [['w'], ['a'], ['b']] .directory).put [['w'], ['a'], ['b'], ['f']] (.file [])).put
    [['w'], ['l']] (.link ['/', 'w', '/', 'a'])

/-- The directory that the link leads to is moved with its file, and the directory above the target
is made. -/
theorem effect_movingHost :
    let a : Applier := { workspace := ⟨[['w']]⟩ }
    let op : Operation Value := .rename (.text "l/b") (.text "n/c")
    let after := (outcome (a.apply op) movingHost).2.files
    (∃ given : Operation Text, op = given.map .text ∧
      a.workspace.Effect movingHost after given) ∧
      after.entryAt [['w'], ['n'], ['c'], ['f']] = some (.file []) ∧
      after.entryAt [['w'], ['a'], ['b']] = none := by
  intro a op after
  have hf : movingHost.files.LoopFree :=
    loopFree_of_links_to_directory (q := [['w'], ['a']]) (by decide) (by decide)
  have ho : outcome (a.apply op) movingHost = (.ok (), (outcome (a.apply op) movingHost).2) :=
    Prod.ext rfl rfl
  exact ⟨effect_of_apply a op (by decide) hf ho, by decide, by decide⟩

end Applier

end ReplyLedger
