import ReplyLedger.Applier
import ReplyLedger.Proofs.FileSystem.Calls
import ReplyLedger.Proofs.FileSystem.Resolution
import ReplyLedger.Proofs.Host.Outcome
import ReplyLedger.Proofs.Timestamp.RoundTrip
import Mathlib.Data.List.Induction

/-!
# Operations stay in the workspace

Whatever an operation comes to, only entries strictly below the root of the workspace are changed
(`Confined`). A path is located before anything is touched; without loops, the location is settled
and strictly below the root (`ensures_locate_bind`). It stays settled while the directories above it
are made, so every call that follows changes entries at or below that location only.

The main result is `contained_apply_applyAll`, for single operations and for batches.
-/

namespace ReplyLedger

/-! ## Confined changes -/

/-- Whether a location is strictly below another. -/
def Below (root q : Location) : Prop := root <+: q ∧ q ≠ root

theorem Below.extend {root p q : Location} (hp : Below root p) (h : p <+: q) : Below root q := by
  refine ⟨hp.1.trans h, ?_⟩
  rintro rfl
  exact hp.2 (h.eq_of_length_le hp.1.length_le)

/-- What is not strictly below `root` is the same in both file systems. -/
def Confined (root : Location) (before after : FileSystem) : Prop :=
  ∀ q, ¬ Below root q → after.entryAt q = before.entryAt q

namespace Confined

open FileSystem

variable {root p q : Location} {before fs gs : FileSystem}

theorem refl (root : Location) (fs : FileSystem) : Confined root fs fs := fun _ _ => rfl

theorem trans (h : Confined root before fs) (h' : Confined root fs gs) :
    Confined root before gs := fun q hq => (h' q hq).trans (h q hq)

/-- The root itself stays a directory. -/
theorem isDirectory (h : Confined root before fs) (hr : before.IsDirectory root) :
    fs.IsDirectory root := (h root fun hb => hb.2 rfl).trans hr

theorem put (h : Confined root before fs) (hp : Below root p) (e : Entry) :
    Confined root before (fs.put p e) := by
  intro r hr
  have hne : r ≠ p := by
    rintro rfl
    exact hr hp
  rw [entryAt_put_of_ne e hne, h r hr]

theorem erase (h : Confined root before fs) (hp : Below root p) :
    Confined root before (fs.erase p) := by
  intro r hr
  have hne : r ≠ p := by
    rintro rfl
    exact hr hp
  rw [entryAt_erase_of_ne hne, h r hr]

theorem move (h : Confined root before fs) (hp : Below root p) (hq : Below root q) :
    Confined root before (fs.move p q) := by
  intro r hr
  rw [entryAt_move_of_not_below (fun hpr => hr (hp.extend hpr))
    (fun hqr => hr (hq.extend hqr)), h r hr]

end Confined

namespace Action

open FileSystem

variable {α : Type} {root p q : Location} {before : FileSystem} {ps : List Location}

/-- The changes so far are confined, and the locations `ps` are settled. -/
structure Ready (root : Location) (before : FileSystem) (ps : List Location) (fs : FileSystem) :
    Prop where
  confined : Confined root before fs
  settled : ∀ p ∈ ps, fs.Settled p

theorem Ready.put {fs : FileSystem} {e : Entry} (h : Ready root before ps fs) (hp : Below root p)
    (he : ∀ target, e ≠ .link target) : Ready root before ps (fs.put p e) :=
  ⟨h.confined.put hp e, fun q hq => (h.settled q hq).put he⟩

/-! ## Calls at locations below the root -/

/-- A file is written at a settled location only. -/
theorem ensures_changeFile {f : Bytes → Bytes} (hb : Below root p) (hp : p ∈ ps) :
    Ensures (Ready root before ps)
      (change (FilePath.ofNames p).text fun files cwd =>
        files.changeFile cwd (FilePath.ofNames p).text f)
      (Ready root before ps) := by
  refine ensures_change (fun fs cwd gs h hc => ?_) fun _ h => h
  obtain ⟨-, bytes, rfl, -⟩ := changeFile_eq_ok (h.settled p hp) hc
  exact h.put hb (by simp)

theorem ensures_writeValue (hb : Below root p) (hp : p ∈ ps) (content : Json.Value) :
    Ensures (Ready root before ps) (writeValue (FilePath.ofNames p).text content)
      (Ready root before ps) := by
  cases content with
  | text t => exact ensures_changeFile hb hp
  | _ =>
    refine (ensures_changeFile hb hp).bind (fun _ => ?_) fun _ h => h
    exact (looks_fail _).ensures fun _ h => h

/-- A directory that is made on the way to a location below the root is below the root: the root,
and what is above it, are directories already. -/
theorem ensures_makeDirectory (hr : before.IsDirectory root) (hb : Below root p) (hp : p ∈ ps)
    (hq : q <+: p) :
    Ensures (Ready root before ps) (makeDirectory (FilePath.ofNames q).text)
      (Ready root before ps) := by
  refine ensures_change (fun fs cwd gs h hc => ?_) fun _ h => h
  obtain ⟨-, hfree, rfl⟩ := makeDirectory_eq_ok ((h.settled p hp).above hq) hc
  refine h.put ?_ (by simp)
  have hroot := h.confined.isDirectory hr
  rcases List.prefix_or_prefix_of_prefix hb.1 hq with hrq | hqr
  · refine ⟨hrq, ?_⟩
    rintro rfl
    simp [IsDirectory, hfree] at hroot
  · obtain ⟨t, rfl⟩ := hqr
    by_cases ht : t = []
    · simp [IsDirectory, ht, hfree] at hroot
    · have hd : ¬ fs.IsDirectory q := by simp [IsDirectory, hfree]
      simp [IsDirectory, entryAt_append_eq_none hd ht] at hroot

theorem ensures_ensureDirectory (hr : before.IsDirectory root) (hb : Below root p) (hp : p ∈ ps)
    (hq : q <+: p) :
    Ensures (Ready root before ps) (ensureDirectory (FilePath.ofNames q).text)
      (Ready root before ps) := by
  refine (ensures_makeDirectory hr hb hp hq).rescue (fun f => ?_) fun _ h => h
  refine ((looks_isDirectory _).ensures fun _ h => h).bind (fun b => ?_) fun _ h => h
  cases b with
  | true => exact (looks_pure _).ensures fun _ h => h
  | false => exact (looks_fail _).ensures fun _ h => h

theorem ensures_ensureDirectoriesFrom (hr : before.IsDirectory root) (hb : Below root p)
    (hp : p ∈ ps) {names : List Text} (hq : names.reverse <+: p) :
    Ensures (Ready root before ps) (ensureDirectoriesFrom .root names) (Ready root before ps) := by
  induction names with
  | nil => exact ensures_ensureDirectory hr hb hp hq
  | cons name above ih =>
    have habove : above.reverse <+: p := by
      rw [List.reverse_cons] at hq
      exact (List.prefix_append _ _).trans hq
    refine (ensures_ensureDirectory hr hb hp hq).rescue (fun _ => ?_) fun _ h => h
    exact (ih habove).bind (fun _ => ensures_ensureDirectory hr hb hp hq) fun _ h => h

/-- Making the directories above a location below the root keeps all changes below the root. -/
theorem ensures_ensureDirectories (hr : before.IsDirectory root) (hb : Below root p)
    (hp : p ∈ ps) :
    Ensures (Ready root before ps) (ensureDirectories (FilePath.ofNames p).parent)
      (Ready root before ps) := by
  rw [FilePath.parent_ofNames, ensureDirectories]
  refine ensures_ensureDirectoriesFrom hr hb hp ?_
  rw [List.reverse_reverse]
  exact List.dropLast_prefix p

end Action

namespace Applier

open ReplyLedger.Action FileSystem

variable {α : Type} {before : FileSystem} {a : Applier} {ps : List Location}

/-! ## Locating -/

/-- What is looked up is cut at slashes. -/
theorem not_mem_names_join_of {root : Location} (hr : ∀ s ∈ root, '/' ∉ s) (path : Text) {s : Text}
    (hs : s ∈ ((FilePath.ofNames root).join (FilePath.ofText path)).names) : '/' ∉ s := by
  have hof : ∀ s ∈ (FilePath.ofText path).names, '/' ∉ s := fun s hs =>
    Text.not_mem_of_mem_segments (List.mem_filter.1 hs).1
  unfold FilePath.join at hs
  split at hs
  · exact hof s hs
  · rcases List.mem_append.1 hs with hs | hs
    · exact hr s hs
    · exact hof s hs

theorem not_mem_names_join {root : Location} {fs : FileSystem} (hr : fs.IsDirectory root)
    (path : Text) {s : Text}
    (hs : s ∈ ((FilePath.ofNames root).join (FilePath.ofText path)).names) : '/' ∉ s :=
  not_mem_names_join_of
    (slash_not_mem fun _ hs => isPlain_of_isName (isName_of_isDirectory hr hs)) path hs

/-- What is looked at while the locations of an operation are found: nothing has been changed yet. -/
def Unchanged (before : FileSystem) (ps : List Location) (fs : FileSystem) : Prop :=
  fs = before ∧ ∀ p ∈ ps, fs.Settled p

theorem Unchanged.ready {root : Location} {fs : FileSystem} (h : Unchanged before ps fs) :
    Ready root before ps fs := ⟨h.1 ▸ .refl root before, h.2⟩

theorem ensures_of_ready {root : Location} {act : Action α}
    (h : Ensures (Ready root before ps) act (Ready root before ps)) :
    Ensures (Unchanged before ps) act (Confined root before) :=
  h.mono (fun _ hu => hu.ready) fun _ hc => hc.confined

/-- **Without loops, a path is located strictly below the root, at a settled location.** -/
theorem ensures_locate_bind (hf : before.LoopFree) (hr : before.IsDirectory a.workspace.root)
    (path : Text) {f : FilePath → Action α}
    (h : ∀ p, Below a.workspace.root p →
      Ensures (Unchanged before (p :: ps)) (f (.ofNames p)) (Confined a.workspace.root before)) :
    Ensures (Unchanged before ps) (a.locate path >>= f) (Confined a.workspace.root before) := by
  intro host hh
  obtain ⟨rfl, hps⟩ := hh
  rw [locate, bind_map_left, Workspace.resolveIn, bind_assoc, outcome_bind_of_ok (outcome_get host)]
  split
  · exact .refl _ _
  · exact .refl _ _
  · rename_i found hfound
    split
    · rename_i hcov
      simp only [Workspace.covers, Bool.and_eq_true, decide_eq_true_eq,
        List.isPrefixOf_iff_prefix] at hcov
      obtain ⟨-, hs, -⟩ := resolve_eq_ok hf (fun s hs => not_mem_names_join hr _ hs) hfound
      rw [pure_bind]
      exact h found.names ⟨hcov.1.2, hcov.2⟩ host ⟨rfl, by simpa [hs] using hps⟩
    · exact .refl _ _

/-! ## Operations -/

theorem looks_needText (v : Json.Value) : Looks (needText v) := by
  cases v with
  | text t => exact looks_pure t
  | _ => exact looks_fail _

theorem looks_checkDepth (a : Applier) (directory : FilePath) : Looks (a.checkDepth directory) := by
  refine looks_get.bind fun h => ?_
  split
  · exact looks_pure ()
  · exact looks_fail _

/-- The directories above a target are all that is made for it. -/
theorem ensures_makeRoom {P : FileSystem → Prop} {a : Applier} {target : FilePath}
    (he : Ensures P (ensureDirectories target.parent) P) : Ensures P (a.makeRoom target) P :=
  (looks_checkDepth a _).bind_ensures (fun _ => he) fun _ h => h

theorem ensures_mayOverwrite {P : FileSystem → Prop} (a : Applier) (path : Text) :
    Ensures P (a.mayOverwrite path) P := by
  unfold mayOverwrite
  split
  · exact ensures_ask _ path fun _ h => h
  · exact (looks_pure false).ensures fun _ h => h

theorem ensures_create (hf : before.LoopFree) (hr : before.IsDirectory a.workspace.root)
    (path : Text) (content : Json.Value) :
    Ensures (Unchanged before []) (a.create path content) (Confined a.workspace.root before) := by
  refine ensures_locate_bind hf hr path fun p hb => ?_
  have hp : p ∈ [p] := List.mem_singleton_self p
  refine ensures_of_ready ?_
  have hend : Ensures (Ready a.workspace.root before [p])
      (a.makeRoom (FilePath.ofNames p) >>= fun _ => writeValue (FilePath.ofNames p).text content)
      (Ready a.workspace.root before [p]) :=
    (ensures_makeRoom (ensures_ensureDirectories hr hb hp)).bind
      (fun _ => ensures_writeValue hb hp content) fun _ h => h
  refine (looks_isDirectory _).bind_ensures (fun b => ?_) fun _ h => h
  refine Ensures.unless ?_ fun _ h => h
  refine (looks_pathExists _).bind_ensures (fun b => ?_) fun _ h => h
  dsimp only
  split
  · refine (ensures_mayOverwrite a path).bind (fun b => ?_) fun _ h => h
    exact Ensures.unless hend fun _ h => h
  · exact hend

/-- A file is located as any path is, and looked at. -/
theorem ensures_locateFile_bind (hf : before.LoopFree) (hr : before.IsDirectory a.workspace.root)
    (path : Text) {f : FilePath → Action Unit}
    (h : ∀ p, Below a.workspace.root p →
      Ensures (Ready a.workspace.root before [p]) (f (.ofNames p))
        (Ready a.workspace.root before [p])) :
    Ensures (Unchanged before []) (a.locateFile path >>= f) (Confined a.workspace.root before) := by
  rw [locateFile, bind_assoc]
  refine ensures_locate_bind hf hr path fun p hb => ?_
  refine ensures_of_ready ?_
  rw [bind_assoc]
  refine (looks_isFile _).bind_ensures (fun b => ?_) fun _ h => h
  cases b with
  | true => exact h p hb
  | false => exact (looks_fail _).ensures fun _ h => h

theorem ensures_delete (hf : before.LoopFree) (hr : before.IsDirectory a.workspace.root)
    (path : Text) :
    Ensures (Unchanged before []) (a.delete path) (Confined a.workspace.root before) := by
  refine ensures_locateFile_bind hf hr path fun p hb => ?_
  refine ensures_change (fun fs cwd gs h hc => ?_) fun _ h => h
  obtain ⟨-, rfl⟩ := unlink_eq_ok (h.settled p (List.mem_singleton_self p)) hc
  exact ⟨h.confined.erase hb, fun q hq => (h.settled q hq).erase⟩

/-- A move is made between settled locations below the root. -/
theorem ensures_move {root p q : Location} (hb : Below root p) (hb' : Below root q) :
    Ensures (Ready root before [q, p])
      (a.move (FilePath.ofNames p).text (FilePath.ofNames q).text) (Confined root before) := by
  intro h hh
  have h0 : p ≠ [] := by
    rintro rfl
    exact hb.2 (List.prefix_nil.1 hb.1).symm
  rw [move, outcome_bind_of_ok (outcome_get h)]
  split
  · rename_i d hd
    cases relocateAll_eq_ok (hh.settled p (by simp)) (hh.settled q (by simp)) h0 hd
    exact hh.confined.move hb hb'
  · rename_i hd
    cases relocateAll_eq_ok (hh.settled p (by simp)) (hh.settled q (by simp)) h0 hd
  · exact hh.confined
  · exact hh.confined
  · exact hh.confined

theorem ensures_rename (hf : before.LoopFree) (hr : before.IsDirectory a.workspace.root)
    (source : Text) (target : Json.Value) :
    Ensures (Unchanged before []) (a.rename source target) (Confined a.workspace.root before) := by
  refine ensures_locate_bind hf hr source fun p hb => ?_
  refine (looks_needText target).bind_ensures (fun target => ?_) fun _ h => h.ready.confined
  refine ensures_locate_bind hf hr target fun q hb' => ?_
  refine Ensures.mono (P := Ready a.workspace.root before [q, p]) ?_ (fun _ h => h.ready)
    fun _ h => h
  refine (looks_pathExists _).bind_ensures (fun b => ?_) fun _ h => h.confined
  refine Ensures.unless ?_ fun _ h => h.confined
  refine (looks_pathExists _).bind_ensures (fun b => ?_) fun _ h => h.confined
  refine Ensures.unless ?_ fun _ h => h.confined
  exact (ensures_makeRoom (ensures_ensureDirectories hr hb' (by simp))).bind
    (fun _ => ensures_move hb hb') fun _ h => h.confined

theorem ensures_edit (hf : before.LoopFree) (hr : before.IsDirectory a.workspace.root)
    (path : Text) (search replacement : Json.Value) :
    Ensures (Unchanged before []) (a.edit path search replacement)
      (Confined a.workspace.root before) := by
  refine ensures_locateFile_bind hf hr path fun p hb => ?_
  refine (looks_readText _).bind_ensures (fun content => ?_) fun _ h => h
  refine (looks_needText search).bind_ensures (fun search => ?_) fun _ h => h
  refine Ensures.unless ?_ fun _ h => h
  refine (looks_needText replacement).bind_ensures (fun replacement => ?_) fun _ h => h
  refine (ensures_changeFile hb (List.mem_singleton_self p)).bind (fun _ => ?_) fun _ h => h
  exact ensures_say _ _ fun _ h => h

theorem ensures_overwrite (hf : before.LoopFree) (hr : before.IsDirectory a.workspace.root)
    (path : Text) (content : Json.Value) :
    Ensures (Unchanged before []) (a.overwrite path content) (Confined a.workspace.root before) :=
  ensures_locateFile_bind hf hr path fun p hb =>
    ensures_writeValue hb (List.mem_singleton_self p) content

/-- **Carrying out an operation changes entries strictly below the root only.** -/
theorem ensures_apply (hf : before.LoopFree) (hr : before.IsDirectory a.workspace.root)
    (op : Operation Json.Value) :
    Ensures (Unchanged before []) (a.apply op) (Confined a.workspace.root before) := by
  cases op with
  | create file content =>
    refine (looks_needText file).bind_ensures (fun path => ?_) fun _ h => h.ready.confined
    exact ensures_create hf hr path content
  | delete file =>
    refine (looks_needText file).bind_ensures (fun path => ?_) fun _ h => h.ready.confined
    exact ensures_delete hf hr path
  | rename source target =>
    refine (looks_needText source).bind_ensures (fun path => ?_) fun _ h => h.ready.confined
    exact ensures_rename hf hr path target
  | edit file search replacement =>
    refine (looks_needText file).bind_ensures (fun path => ?_) fun _ h => h.ready.confined
    exact ensures_edit hf hr path search replacement
  | overwrite file content =>
    refine (looks_needText file).bind_ensures (fun path => ?_) fun _ h => h.ready.confined
    exact ensures_overwrite hf hr path content

/-! ## Batches -/

/-- Without a journal, what is noted about an operation changes no file. -/
theorem files_note (hj : a.journal = none) (entry : Text) (h : Host) :
    (outcome (a.note entry) h).2.files = h.files := by
  rw [note, hj]
  rfl

theorem ensures_applyNext (hj : a.journal = none) (hf : before.LoopFree)
    (hr : before.IsDirectory a.workspace.root) (r : BatchReport) (op : Operation Json.Value) :
    Ensures (Unchanged before []) (a.applyNext r op) (Confined a.workspace.root before) := by
  refine Ensures.bind (M := Confined a.workspace.root before) ?_ (fun failure => ?_) fun _ h => h
  · refine Ensures.rescue (M := Confined a.workspace.root before) ?_ (fun f => ?_) fun _ h => h
    · rw [seqRight_eq_bind]
      exact (ensures_apply hf hr op).bind (fun _ => (looks_pure _).ensures fun _ h => h)
        fun _ h => h
    · exact (looks_pure _).ensures fun _ h => h
  · have hnote (entry : Text) : Ensures (Confined a.workspace.root before) (a.note entry)
        (Confined a.workspace.root before) := ensures_of_files_eq (files_note hj entry) fun _ h => h
    cases failure with
    | none => exact (hnote _).bind (fun _ => (looks_pure _).ensures fun _ h => h) fun _ h => h
    | some f => exact (hnote _).bind (fun _ => (looks_pure _).ensures fun _ h => h) fun _ h => h

theorem applyAll_concat (a : Applier) (ops : List (Operation Json.Value))
    (op : Operation Json.Value) :
    a.applyAll (ops ++ [op]) = a.applyAll ops >>= fun r => a.applyNext r op := by
  rw [applyAll, List.foldlM_append]
  simp [applyAll]

/-- A batch is confined if every operation of it meets files without loops. -/
theorem confined_applyAll (hj : a.journal = none) {h : Host}
    (hr : h.files.IsDirectory a.workspace.root) {ops : List (Operation Json.Value)}
    (hf : ∀ n < ops.length, (outcome (a.applyAll (ops.take n)) h).2.files.LoopFree) :
    Confined a.workspace.root h.files (outcome (a.applyAll ops) h).2.files := by
  induction ops using List.reverseRecOn with
  | nil => exact .refl _ _
  | append_singleton ops op ih =>
    have hops : Confined a.workspace.root h.files (outcome (a.applyAll ops) h).2.files := by
      refine ih fun n hn => ?_
      have hn' := hf n (by simp; omega)
      rwa [List.take_append_of_le_length (by omega)] at hn'
    have hlast := hf ops.length (by simp)
    rw [List.take_left] at hlast
    rw [applyAll_concat, outcome_bind]
    generalize outcome (a.applyAll ops) h = o at hops hlast ⊢
    rcases o with ⟨_ | r, h'⟩
    · exact hops
    · exact hops.trans
        (ensures_applyNext hj hlast (hops.isDirectory hr) r op h' ⟨rfl, by simp⟩)

/-- **Operations are confined to the workspace.** Whatever an operation or a batch without a journal
comes to, everything that is not strictly below the root is as before, and the root is still a
directory, as long as the operations meet files without loops. -/
theorem contained_apply_applyAll (a : Applier) (h : Host)
    (hr : h.files.IsDirectory a.workspace.root) :
    (h.files.LoopFree → ∀ op : Operation Json.Value,
      Confined a.workspace.root h.files (outcome (a.apply op) h).2.files ∧
        (outcome (a.apply op) h).2.files.IsDirectory a.workspace.root) ∧
    (a.journal = none → ∀ ops : List (Operation Json.Value),
      (∀ n < ops.length, (outcome (a.applyAll (ops.take n)) h).2.files.LoopFree) →
        Confined a.workspace.root h.files (outcome (a.applyAll ops) h).2.files ∧
          (outcome (a.applyAll ops) h).2.files.IsDirectory a.workspace.root) := by
  constructor
  · intro hf op
    have hc := ensures_apply hf hr op h ⟨rfl, by simp⟩
    exact ⟨hc, hc.isDirectory hr⟩
  · intro hj ops hf
    have hc := confined_applyAll hj hr hf
    exact ⟨hc, hc.isDirectory hr⟩

/-! ## A link that leads out of the workspace -/

/-- A workspace `/w` with a link to the directory `/o`, which is not in it. -/
def linkedHost : Host := .ofFiles <|
  ((FileSystem.empty.put [['w']] .directory).put [['o']] .directory).put
    [['w'], ['l']] (.link ['/', 'o'])

theorem loopFree_of_links_to_directory {fs : FileSystem} {q : Location} (hq : fs.IsDirectory q)
    (h : ∀ x ∈ fs.entries,
      x.2 = .directory ∨ x.2 = .file [] ∨ x.2 = .link (FilePath.ofNames q).text) :
    fs.LoopFree := by
  refine loopFree_of_settled fun p target hl => ⟨q, .of_isDirectory hq, ?_⟩
  by_cases hp : p = []
  · rw [hp, entryAt_nil] at hl
    simp at hl
  · simpa using h _ ((entryAt_eq_some_iff hp).1 hl)

/-- A file is made in the workspace, and the one that the link would bring out of it is not. -/
theorem contained_linkedHost :
    let a : Applier := { workspace := ⟨[['w']]⟩ }
    let ops : List (Operation Json.Value) :=
      [.create (.text "a/b") (.text []), .create (.text "l/b") (.text [])]
    (∀ op ∈ ops, Confined [['w']] linkedHost.files (outcome (a.apply op) linkedHost).2.files) ∧
      Confined [['w']] linkedHost.files (outcome (a.applyAll ops) linkedHost).2.files ∧
      (outcome (a.applyAll ops) linkedHost).2.files.entryAt [['w'], ['a'], ['b']] =
        some (.file []) := by
  intro a ops
  have hcontained := contained_apply_applyAll a linkedHost (by decide)
  refine ⟨fun op _ => (hcontained.1 ?_ op).1, (hcontained.2 rfl ops fun n hn => ?_).1, by decide⟩
  · exact loopFree_of_links_to_directory (q := [['o']]) (by decide) (by decide)
  · obtain rfl | rfl : n = 0 ∨ n = 1 := by
      simp only [ops, List.length_cons, List.length_nil] at hn
      omega
    · exact loopFree_of_links_to_directory (q := [['o']]) (by decide) (by decide)
    · exact loopFree_of_links_to_directory (q := [['o']]) (by decide) (by decide)

end Applier

end ReplyLedger
