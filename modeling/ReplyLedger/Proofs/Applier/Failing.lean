import ReplyLedger.Proofs.Applier.Interruptions

/-!
# Operations that fail

An operation is refused before it changes anything. After that the directories above its target are
made, and the call that writes, removes or moves comes last. So whatever links there are, and
whatever makes an operation fail, every entry that was there is still there, and what is new are
directories (`Applier.fails_apply`); a refused operation has not even made these.

The exception is a renaming that would move a directory below itself, though the names of the
locations do not show that. The directory is copied then, and unless the copy comes to its end, what
has been made of it stays, files as well (`Applier.spread_burrowedHost`).

The main results are `Applier.kept_of_apply_fails` and `Applier.overreaches_of_tooDeep`, which says
what an operation has to be for the machine to give it up.
-/

namespace ReplyLedger.Applier

open ReplyLedger.Action Workspace FileSystem Json

variable {a : Applier} {before h : Host} {op : Operation Value} {α : Type}

/-- An operation may take more nested calls than there can be: its target is out of reach, or it would
move a directory below itself. -/
inductive Overreaches (a : Applier) (h : Host) : Operation Value → Prop
  | create {path : Text} {content : Value} {q : Location} (hl : a.workspace.Locates h path q)
    (hq : a.IsOutOfReach h q) : Overreaches a h (.create (.text path) content)
  | rename {source : Value} {target : Text} {q : Location} (hl : a.workspace.Locates h target q)
    (hq : a.IsOutOfReach h q) : Overreaches a h (.rename source (.text target))
  | copy {source target : Text} (hn : a.nesting ≠ none)
    (hb : a.workspace.MovesBelowItself h source target) :
    Overreaches a h (.rename (.text source) (.text target))

/-- Where calls can be nested as deep as they go, nothing overreaches. -/
theorem Overreaches.nesting_ne_none (ho : a.Overreaches h op) : a.nesting ≠ none := by
  cases ho with
  | create _ hq => exact fun hn => by simp [IsOutOfReach, hn] at hq
  | rename _ hq => exact fun hn => by simp [IsOutOfReach, hn] at hq
  | copy hn => exact hn

/-- What the failure of an operation leaves: everything that was there, with new directories at the
most, unless the operation would move a directory below itself. -/
structure LosesNothing (a : Applier) (before : Host) (op : Operation Value) (f : Failure)
    (h : Host) : Prop where
  entryAt : ∀ p e, before.files.entryAt p = some e → h.files.entryAt p = some e
  directory : ∀ p e, before.files.entryAt p = none → h.files.entryAt p = some e →
    e = .directory ∨ a.workspace.SpreadsTo before op p
  refused : f.isRefusal → h.files = before.files
  tooDeep : f = .tooDeep → a.Overreaches before op

/-- A failure before any change loses nothing. -/
theorem losesNothing_of_eq {f : Failure} (hf : f.endsOperation ∨ f = .interrupted)
    (hh : h.files = before.files) : a.LosesNothing before op f h where
  entryAt _ _ he := hh ▸ he
  directory _ _ hn he := by simp [hh, hn] at he
  refused _ := hh
  tooDeep hd := by
    subst hd
    exact hf.elim (fun hf => absurd hf Bool.false_ne_true) fun hf => by simp at hf

/-- A failure after directories have been made loses nothing, if it is no refusal. -/
theorem losesNothing_of_gains {f : Failure} (hf : f.endsOperation ∧ f.isRefusal = false)
    (hh : before.files.GainsDirectories (fun _ => True) h.files) :
    a.LosesNothing before op f h where
  entryAt _ _ he := hh.entryAt_eq he
  directory _ _ hn he := .inl (hh.eq_directory hn he)
  refused hr := by simp [hf.2] at hr
  tooDeep hd := by
    subst hd
    exact absurd hf.1 Bool.false_ne_true

theorem losesNothing_of_unprepared {q : Location} {f : Failure}
    (hd : a.IsOutOfReach before q → a.Overreaches before op) (hh : a.Unprepared before q f h) :
    a.LosesNothing before op f h := by
  cases hh with
  | tooDeep hq hh =>
    exact ⟨fun _ _ he => hh.files ▸ he, fun _ _ hn he => by simp [hh.files, hn] at he,
      fun _ => hh.files, fun _ => hd hq⟩
  | refused hf hh => exact losesNothing_of_gains hf hh

/-! ## Before anything has been changed -/

/-- Before anything has been changed, a look may fail as it likes. -/
theorem fails_looks_bind {act : Action α} {f : α → Action Unit} (ha : Looks act)
    (hE : EndsOnly act)
    (hf : ∀ a', Meets (Unmoved before) (f a') (fun _ _ => True) (a.LosesNothing before op)) :
    Meets (Unmoved before) (act >>= f) (fun _ _ => True) (a.LosesNothing before op) :=
  ha.meets_bind hE (fun _ _ hends hh => losesNothing_of_eq (.inl hends) hh.files)
    fun a' => (hf a').mono (fun _ hh => hh.1) (fun _ _ hh => hh) fun _ _ hh => hh

/-- A check that fails if `c` holds, and then the rest. -/
theorem fails_unless {c : Prop} [Decidable c] {f : Failure} {rest : Unit → Action Unit}
    (hf : f.endsOperation)
    (hr : Meets (Unmoved before) (rest ()) (fun _ _ => True) (a.LosesNothing before op)) :
    Meets (Unmoved before) (if c then fail f >>= rest else rest ()) (fun _ _ => True)
      (a.LosesNothing before op) :=
  Meets.unless (fun _ _ hh => losesNothing_of_eq (.inl hf) hh.files) fun _ => hr

theorem looks_locate (a : Applier) (path : Text) : Looks (a.locate path) := by
  intro h
  rw [locate, outcome_map, outcome_resolveIn]

theorem looks_locateFile (a : Applier) (path : Text) : Looks (a.locateFile path) := by
  refine (looks_locate a path).bind fun target => (looks_isFile _).bind fun there => ?_
  cases there with
  | true => exact looks_pure _
  | false => exact looks_fail _

theorem fails_mayOverwrite (a : Applier) (path : Text) :
    Meets (Unmoved before) (a.mayOverwrite path) (fun _ => Unmoved before)
      (a.LosesNothing before op) := by
  unfold mayOverwrite
  split
  · rename_i confirm hconfirm
    intro h hh
    rw [outcome_ask]
    rcases (confirm path h.console).1 with _ | answer
    · exact losesNothing_of_eq (.inr rfl) hh.files
    · exact ⟨hh.files, hh.cwd⟩
  · exact meets_pure fun _ hh => hh

/-! ## The last calls -/

/-- A call that changes the files changes nothing if it fails. -/
theorem fails_change (path : Text) (f : FileSystem → CurrentDirectory → Except Errno FileSystem) :
    Meets (fun h => before.files.GainsDirectories (fun _ => True) h.files) (change path f)
      (fun _ _ => True) (a.LosesNothing before op) :=
  ((meets_change fun _ _ _ _ => trivial).failsWith (neverRefuses_change path f)).mono
    (fun _ hh => hh) (fun _ _ hh => hh) fun _ _ hh => losesNothing_of_gains ⟨hh.2.1, hh.1⟩ hh.2.2

/-- A copy to a free place that does not come to its end leaves everything that was there. -/
theorem fails_moveByCopy {source target : Text} {src dst : Place} {p : Location}
    (hb : a.workspace.MovesBelowItself before source target)
    (ht : a.workspace.Takes before source target p dst.location) :
    Meets (fun h => before.files.GainsDirectories (fun _ => True) h.files ∧
        h.files.entryAt dst.location = none) (a.moveByCopy src dst) (fun _ _ => True)
      (a.LosesNothing before (.rename (.text source) (.text target))) := by
  rintro h ⟨hgains, hfree⟩
  have hstays := staysBelow_copyTree a.levels src dst h.files
  have hmade {f : Failure} {files : FileSystem} (hf : f.isRefusal = false)
      (hd : f = .tooDeep → a.nesting ≠ none) (hfiles : (h.files.copyTree a.levels src dst).2 = files) :
      a.LosesNothing before (.rename (.text source) (.text target)) f { h with files } := by
    refine ⟨fun q e he => ?_, fun q e hn he => ?_, fun hr => by simp [hf] at hr,
      fun hf => .copy (hd hf) hb⟩
    · have hh := hgains.entryAt_eq he
      -- below the free place nothing was
      have hq : ¬ dst.location <+: q := by
        rintro ⟨t, rfl⟩
        have hbelow : h.files.entryAt (dst.location ++ t) = none := by
          by_cases h0 : t = []
          · rwa [h0, List.append_nil]
          · exact entryAt_append_eq_none (by simp [IsDirectory, hfree]) h0
        simp [hbelow] at hh
      rw [← hfiles, hstays q hq]
      exact hh
    · by_cases hq : dst.location <+: q
      · exact .inr ⟨source, target, p, dst.location, rfl, hb, ht, hq⟩
      · rw [← hfiles, hstays q hq] at he
        exact .inl (hgains.eq_directory hn he)
  rw [moveByCopy, outcome_bind_of_ok (outcome_get h)]
  rcases hc : h.files.copyTree a.levels src dst with ⟨_ | ⟨e, path⟩ | faults | _, files⟩
  · trivial
  · exact hmade rfl (by simp) (by rw [hc])
  · exact hmade rfl (by simp) (by rw [hc])
  · exact hmade rfl (fun _ => nesting_ne_none_of_tooDeep (congrArg Prod.fst hc)) (by rw [hc])

/-- A move fails with everything where it was, or while a directory is copied. -/
theorem fails_move {source target : Text} {p q r : Location} {e : Entry}
    (hr : ∀ s ∈ a.workspace.root, '/' ∉ s) (hl : a.workspace.Locates before source p)
    (hl' : a.workspace.Locates before target q)
    (hs : before.files.find before.cwd .kept (FilePath.ofNames p).text = .ok (.entry r e))
    (hnowhere : before.files.LeadsNowhere before.cwd (FilePath.ofNames q).text) :
    Meets (Prepared before q) (a.move (FilePath.ofNames p).text (FilePath.ofNames q).text)
      (fun _ _ => True) (a.LosesNothing before (.rename (.text source) (.text target))) := by
  intro h hh
  rw [move, outcome_bind_of_ok (outcome_get h)]
  rcases hmove : h.files.relocateAll h.cwd (FilePath.ofNames p).text (FilePath.ofNames q).text
    with fault | way
  · cases fault <;> exact losesNothing_of_gains ⟨rfl, rfl⟩ hh.gains
  · obtain ⟨q', htakes, -, rfl | ⟨rfl, hfree, hbelow⟩⟩ :=
      relocation_of_prepared hr hl hl' hs hnowhere hh hmove
    · trivial
    · exact fails_moveByCopy hbelow htakes h ⟨hh.gains, hfree⟩

/-! ## Operations -/

theorem fails_create (hr : ∀ s ∈ a.workspace.root, '/' ∉ s) (path content : Text) :
    Meets (· = before) (a.create path (.text content)) (fun _ _ => True)
      (a.LosesNothing before (.create (.text path) (.text content))) := by
  refine meets_locate_bind (fun _ hf => losesNothing_of_eq (.inl hf) rfl) fun q hl => ?_
  refine Meets.mono (P := Unmoved before) ?_ (fun _ hh => hh ▸ ⟨rfl, rfl⟩) (fun _ _ hh => hh)
    fun _ _ hh => hh
  have hend : Meets (Unmoved before) (a.makeRoom (FilePath.ofNames q) >>= fun _ =>
      writeValue (FilePath.ofNames q).text (.text content)) (fun _ _ => True)
      (a.LosesNothing before (.create (.text path) (.text content))) :=
    ((meets_makeRoom_prepared a (isPlain_of_locates hr hl) (ne_nil_of_locates hl)).mono
      (fun _ hh => hh) (fun _ _ hh => hh.gains)
      fun _ _ hh => losesNothing_of_unprepared (.create hl) hh).bind fun _ => fails_change _ _
  refine fails_looks_bind (looks_isDirectory _) (endsOnly_isDirectory _) fun there =>
    fails_unless rfl ?_
  refine fails_looks_bind (looks_pathExists _) (endsOnly_pathExists _) fun there => ?_
  dsimp only
  split
  · exact (fails_mayOverwrite a path).bind fun agreed => fails_unless rfl hend
  · exact hend

theorem fails_delete (path : Text) :
    Meets (Unmoved before) (a.delete path) (fun _ _ => True) (a.LosesNothing before op) :=
  fails_looks_bind (looks_locateFile a path) (endsOnly_locateFile a path) fun _ =>
    (fails_change _ _).mono (fun _ hh => hh.files ▸ .refl _ _) (fun _ _ hh => hh) fun _ _ hh => hh

theorem fails_rename (hr : ∀ s ∈ a.workspace.root, '/' ∉ s) (source target : Text) :
    Meets (· = before) (a.rename source (.text target)) (fun _ _ => True)
      (a.LosesNothing before (.rename (.text source) (.text target))) := by
  refine meets_rename_of hr (fun ht => absurd rfl (ht target))
    (fun _ hf => losesNothing_of_eq (.inl hf) rfl) (fun t q f h ht hl hh => ?_)
    fun t p q r e ht hl hl' hs hnowhere => ?_
  · obtain rfl := Value.text.inj ht
    exact losesNothing_of_unprepared (.rename hl) hh
  · obtain rfl := Value.text.inj ht
    exact fails_move hr hl hl' hs hnowhere

theorem fails_edit (path search replacement : Text) :
    Meets (Unmoved before) (a.edit path (.text search) (.text replacement)) (fun _ _ => True)
      (a.LosesNothing before op) := by
  refine fails_looks_bind (looks_locateFile a path) (endsOnly_locateFile a path) fun target => ?_
  refine fails_looks_bind (looks_readText _) (endsOnly_readText _) fun content => ?_
  rw [needText_text, pure_bind]
  refine fails_unless rfl ?_
  rw [needText_text, pure_bind]
  exact ((fails_change _ _).mono (fun _ hh => hh.files ▸ .refl _ _) (fun _ _ hh => hh)
    fun _ _ hh => hh).bind fun _ => meets_say fun _ _ => trivial

theorem fails_overwrite (path content : Text) :
    Meets (Unmoved before) (a.overwrite path (.text content)) (fun _ _ => True)
      (a.LosesNothing before op) :=
  fails_looks_bind (looks_locateFile a path) (endsOnly_locateFile a path) fun _ =>
    (fails_change _ _).mono (fun _ hh => hh.files ▸ .refl _ _) (fun _ _ hh => hh) fun _ _ hh => hh

/-- **An operation that fails loses nothing.** -/
theorem fails_apply (hr : ∀ s ∈ a.workspace.root, '/' ∉ s) (op : Operation Text) :
    Meets (· = before) (a.apply (op.map .text)) (fun _ _ => True)
      (a.LosesNothing before (op.map .text)) := by
  have hsame {act : Action Unit}
      (ha : Meets (Unmoved before) act (fun _ _ => True) (a.LosesNothing before (op.map .text))) :
      Meets (· = before) act (fun _ _ => True) (a.LosesNothing before (op.map .text)) :=
    ha.mono (fun _ hh => hh ▸ ⟨rfl, rfl⟩) (fun _ _ hh => hh) fun _ _ hh => hh
  cases op with
  | create file content => exact fails_create hr file content
  | delete file => exact hsame (fails_delete file)
  | rename source target => exact fails_rename hr source target
  | edit file search replacement => exact hsame (fails_edit file search replacement)
  | overwrite file content => exact hsame (fails_overwrite file content)

/-- **An operation that fails loses nothing.** Every entry that was there is still there and is as it
was, and nothing has changed at all if the operation was refused. Every entry that is new is a
directory, unless the operation would move a directory below itself; then it may be at the place to
which that was to be moved, or below it. -/
theorem kept_of_apply_fails (a : Applier) (hr : ∀ s ∈ a.workspace.root, '/' ∉ s)
    (op : Operation Text) {h h' : Host} {f : Failure}
    (ho : outcome (a.apply (op.map .text)) h = (.error f, h')) :
    (∀ p e, h.files.entryAt p = some e → h'.files.entryAt p = some e) ∧
      (∀ p e, h.files.entryAt p = none → h'.files.entryAt p = some e →
        e = .directory ∨ a.workspace.SpreadsTo h (op.map .text) p) ∧
      (f.isRefusal → h'.files = h.files) := by
  have hkept := fails_apply hr op h rfl
  rw [ho] at hkept
  exact ⟨hkept.entryAt, hkept.directory, hkept.refused⟩

/-- **What the machine gives up is an operation that overreaches.** -/
theorem overreaches_of_tooDeep (hr : ∀ s ∈ a.workspace.root, '/' ∉ s) {op : Operation Text}
    (ho : (outcome (a.apply (op.map .text)) h).1 = .error .tooDeep) :
    a.Overreaches h (op.map .text) := by
  have hkept := fails_apply hr op h rfl
  rcases happly : outcome (a.apply (op.map .text)) h with ⟨f | _, h'⟩
  · rw [happly] at hkept ho
    obtain rfl : f = .tooDeep := Except.error.inj ho
    exact hkept.tooDeep rfl
  · rw [happly] at ho
    cases ho

/-! ## A directory that is to be moved below itself -/

/-- A workspace `/w` with a file in a directory, and two links that lead to each other. -/
def cyclicHost : Host := .ofFiles <|
  ((((FileSystem.empty.put [['w']] .directory).put [['w'], ['d']] .directory).put
    [['w'], ['d'], ['f']] (.file [104, 105])).put [['w'], ['l']] (.link ['m'])).put
    [['w'], ['m']] (.link ['l'])

/-- The directory above the target is made, and the file is kept. -/
theorem kept_cyclicHost :
    let a : Applier := { workspace := ⟨[['w']]⟩ }
    let op : Operation Text := .rename "d" "l/../d/x/y"
    let after := outcome (a.apply (op.map .text)) cyclicHost
    (∀ s ∈ a.workspace.root, '/' ∉ s) ∧ after.1 = .error (.intoItself "/w/d" "/w/d/x/y") ∧
      after.2.files.entryAt [['w'], ['d'], ['x']] = some .directory ∧
      after.2.files.entryAt [['w'], ['d'], ['f']] = some (.file [104, 105]) := by
  intro a op after
  have hr : ∀ s ∈ a.workspace.root, '/' ∉ s := by decide
  have ho : outcome (a.apply (op.map .text)) cyclicHost =
    (.error (.intoItself "/w/d" "/w/d/x/y"), after.2) := Prod.ext rfl rfl
  exact ⟨hr, rfl, by decide, (kept_of_apply_fails a hr op ho).1 _ _ (by decide)⟩

/-- A workspace `/w` with a file and a directory in a directory, a link to the inner directory, and a
link to itself. -/
def burrowedHost : Host := .ofFiles <|
  (((((FileSystem.empty.put [['w']] .directory).put [['w'], ['d']] .directory).put
    [['w'], ['d'], ['f']] (.file [104, 105])).put [['w'], ['d'], ['s']] .directory).put
    [['w'], ['k']] (.link "d/s")).put [['w'], ['l']] (.link ['l'])

/-- The directory with its path, and the place below itself to which it is to be moved. The path to
that passes through the link, since the link to itself has kept it from being followed. -/
def burrow : Place × Place :=
  (⟨[['w'], ['d']], (FilePath.ofNames [['w'], ['d']]).text⟩,
    ⟨[['w'], ['d'], ['s'], ['n']], (FilePath.ofNames [['w'], ['k'], ['n']]).text⟩)

/-- The renaming comes to a copy. -/
theorem outcome_rename_burrowedHost :
    let a : Applier := { workspace := ⟨[['w']]⟩ }
    outcome (a.rename "d" (.text "l/../k/n")) burrowedHost =
      outcome (a.moveByCopy burrow.1 burrow.2) burrowedHost := by
  intro a
  have hsource : outcome (a.locate "d") burrowedHost =
      (.ok (.ofNames [['w'], ['d']]), burrowedHost) := rfl
  have htarget : outcome (a.locate "l/../k/n") burrowedHost =
      (.ok (.ofNames [['w'], ['k'], ['n']]), burrowedHost) := rfl
  have hthere : outcome (pathExists (FilePath.ofNames [['w'], ['d']]).text) burrowedHost =
      (.ok true, burrowedHost) := rfl
  have hfree : outcome (pathExists (FilePath.ofNames [['w'], ['k'], ['n']]).text) burrowedHost =
      (.ok false, burrowedHost) := rfl
  have hroom : outcome (a.makeRoom (.ofNames [['w'], ['k'], ['n']])) burrowedHost =
      (.ok (), burrowedHost) := rfl
  have hmove : burrowedHost.files.relocateAll burrowedHost.cwd (FilePath.ofNames [['w'], ['d']]).text
      (FilePath.ofNames [['w'], ['k'], ['n']]).text =
        .ok (.copy [['w'], ['d']] [['w'], ['d'], ['s'], ['n']]) := by decide
  rw [rename, outcome_bind_of_ok hsource, needText_text, pure_bind, outcome_bind_of_ok htarget,
    outcome_bind_of_ok hthere, Bool.not_true, if_neg Bool.false_ne_true, outcome_bind_of_ok hfree,
    if_neg Bool.false_ne_true, outcome_bind_of_ok hroom, move,
    outcome_bind_of_ok (outcome_get burrowedHost), hmove]
  rfl

/-- **A file is made of the copy and stays, though the renaming fails**: the copy comes upon itself,
and so it cannot come to its end. -/
theorem spread_burrowedHost :
    let a : Applier := { workspace := ⟨[['w']]⟩ }
    let op : Operation Value := .rename (.text "d") (.text "l/../k/n")
    let after := outcome (a.apply op) burrowedHost
    (∃ f, after.1 = .error f ∧ f.endsOperation) ∧
      burrowedHost.files.entryAt [['w'], ['d'], ['s'], ['n'], ['f']] = none ∧
      after.2.files.entryAt [['w'], ['d'], ['s'], ['n'], ['f']] = some (.file [104, 105]) := by
  intro a op after
  have hafter : after = _ := outcome_rename_burrowedHost
  have hdone : (copyTree a.levels burrow.1 burrow.2 burrowedHost.files).1 ≠ .done :=
    copyTree_ne_done ⟨by simp [burrow], by decide, by decide, ['s'], by decide⟩
  have hdeep : (copyTree a.levels burrow.1 burrow.2 burrowedHost.files).1 ≠ .tooDeep :=
    fun hc => nesting_ne_none_of_tooDeep hc rfl
  -- the file is copied before the directory that the copy is in
  have hmade : (copyTree a.levels burrow.1 burrow.2 burrowedHost.files).2.entryAt
      [['w'], ['d'], ['s'], ['n'], ['f']] = some (.file [104, 105]) := by
    have hnames : burrowedHost.files.namesIn burrow.1.location = [['f'], ['s']] := by decide
    have hfile (depth : Nat) : copyEntry (copyTree depth) (burrow.1.child ['f'])
        (burrow.2.child ['f']) (burrowedHost.files.put burrow.2.location .directory) =
          (.done, (burrowedHost.files.put burrow.2.location .directory).put
            (burrow.2.child ['f']).location (.file [104, 105])) := rfl
    rw [show a.levels = maxPathLength + 1 + 1 from rfl, copyTree, if_neg (by decide), hnames,
      copyEntries, hfile]
    dsimp only
    refine (entryAt_copyEntries_of_not_mem (staysBelow_copyTree _) (by decide)).trans ?_
    decide
  rw [moveByCopy, outcome_bind_of_ok (outcome_get burrowedHost)] at hafter
  rcases hc : burrowedHost.files.copyTree a.levels burrow.1 burrow.2
    with ⟨_ | ⟨e, path⟩ | faults | _, files⟩
  · simp [hc] at hdone
  · rw [hc] at hafter hmade
    rw [hafter]
    exact ⟨⟨_, rfl, rfl⟩, by decide, hmade⟩
  · rw [hc] at hafter hmade
    rw [hafter]
    exact ⟨⟨_, rfl, rfl⟩, by decide, hmade⟩
  · simp [hc] at hdeep

end ReplyLedger.Applier
