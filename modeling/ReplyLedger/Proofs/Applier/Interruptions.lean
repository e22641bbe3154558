import ReplyLedger.Proofs.Applier.Batches
import ReplyLedger.Proofs.Applier.Preparing
import ReplyLedger.Proofs.FileSystem.Copying

/-!
# Batches that are broken off

An operation fails in a way that ends only itself, or its question meets the end of the input, or the
machine cannot nest calls as deep as it takes (`failsWith_apply`). So what breaks off a batch is such
an operation, or a note that cannot be taken (`exists_breaksOff`). By then the operations before it
have been carried out or given up, it may have been carried out itself, and those behind it have not
been begun.
-/

namespace ReplyLedger

open FileSystem

namespace Action

/-! ## Calls -/

theorem endsOnly_say (level : Level) (text : Text) : EndsOnly (say level text) :=
  fun _ _ hf => nomatch hf

end Action

namespace Applier

open ReplyLedger.Action Workspace Json

variable {a : Applier}

/-! ## Operations -/

theorem endsOnly_locate (a : Applier) (path : Text) : EndsOnly (a.locate path) := by
  intro h f hf
  rw [locate, outcome_map, outcome_resolveIn] at hf
  rcases hl : a.workspace.locationOf h.files path with f' | p
  · rw [hl] at hf
    obtain rfl : f' = f := Except.error.inj hf
    exact endsOperation_of_locationOf hl
  · rw [hl] at hf
    cases hf

theorem endsOnly_locateFile (a : Applier) (path : Text) : EndsOnly (a.locateFile path) := by
  refine (endsOnly_locate a path).bind fun target => (endsOnly_isFile _).bind fun there => ?_
  cases there with
  | true => exact failsWith_pure _
  | false => exact failsWith_fail rfl

theorem failsWith_makeRoom (a : Applier) (target : FilePath) :
    FailsWith a.MayFail (a.makeRoom target) :=
  ((failsWith_checkDepth a _).mono fun _ hf => .inr (.inr hf)).bind fun _ =>
    mayFail (endsOnly_ensureDirectories _)

theorem failsWith_create (a : Applier) (path content : Text) :
    FailsWith a.MayFail (a.create path (.text content)) := by
  refine (mayFail (endsOnly_locate a path)).bind fun target => ?_
  have hend : FailsWith a.MayFail (a.makeRoom target >>= fun _ =>
      writeValue target.text (.text content)) :=
    (failsWith_makeRoom a target).bind fun _ => mayFail (endsOnly_change _ _)
  refine (mayFail (endsOnly_isDirectory _)).bind fun there => FailsWith.unless (.inl rfl) ?_
  refine (mayFail (endsOnly_pathExists _)).bind fun there => ?_
  dsimp only
  split
  · exact (failsWith_mayOverwrite a path).bind fun agreed => FailsWith.unless (.inl rfl) hend
  · exact hend

/-- Where calls can be nested as deep as they go, no copy is too deep. -/
theorem nesting_ne_none_of_tooDeep {src dst : Place} {fs : FileSystem}
    (hc : (copyTree a.levels src dst fs).1 = .tooDeep) : a.nesting ≠ none := by
  intro hn
  rw [levels, hn] at hc
  exact copyTree_ne_tooDeep (by simp only [maxPathLength]; omega) hc

theorem failsWith_moveByCopy (a : Applier) (src dst : Place) :
    FailsWith a.MayFail (a.moveByCopy src dst) := by
  intro h f hf
  rw [moveByCopy, outcome_bind_of_ok (outcome_get h)] at hf
  rcases hc : h.files.copyTree a.levels src dst with ⟨_ | ⟨e, path⟩ | faults | _, files⟩
  · simp [hc, outcome_bind] at hf
  · obtain rfl : Failure.system e path = f := by simpa [hc, outcome_bind] using hf
    exact .inl rfl
  · obtain rfl : Failure.copying faults = f := by simpa [hc, outcome_bind] using hf
    exact .inl rfl
  · obtain rfl : Failure.tooDeep = f := by simpa [hc, outcome_bind] using hf
    exact .inr (.inr ⟨rfl, nesting_ne_none_of_tooDeep (congrArg Prod.fst hc)⟩)

theorem failsWith_move (a : Applier) (source target : Text) :
    FailsWith a.MayFail (a.move source target) := by
  refine (mayFail endsOnly_get).bind fun h => ?_
  split
  · exact fun _ _ hf => nomatch hf
  · exact failsWith_moveByCopy a _ _
  · exact failsWith_fail (.inl rfl)
  · exact failsWith_fail (.inl rfl)
  · exact failsWith_fail (.inl rfl)

theorem failsWith_rename (a : Applier) (source target : Text) :
    FailsWith a.MayFail (a.rename source (.text target)) := by
  refine (mayFail (endsOnly_locate a source)).bind fun src => ?_
  rw [needText_text, pure_bind]
  refine (mayFail (endsOnly_locate a target)).bind fun dst => ?_
  refine (mayFail (endsOnly_pathExists _)).bind fun there => FailsWith.unless (.inl rfl) ?_
  refine (mayFail (endsOnly_pathExists _)).bind fun taken => FailsWith.unless (.inl rfl) ?_
  exact (failsWith_makeRoom a dst).bind fun _ => failsWith_move a _ _

theorem endsOnly_edit (a : Applier) (path search replacement : Text) :
    EndsOnly (a.edit path (.text search) (.text replacement)) := by
  refine (endsOnly_locateFile a path).bind fun target => ?_
  refine (endsOnly_readText _).bind fun content => ?_
  rw [needText_text, pure_bind]
  refine FailsWith.unless rfl ?_
  rw [needText_text, pure_bind]
  exact (endsOnly_change _ _).bind fun _ => endsOnly_say _ _

/-- **An operation ends only itself when it fails**, unless its question meets the end of the input,
or the machine cannot nest calls as deep as it takes. -/
theorem failsWith_apply (a : Applier) (op : Operation Text) :
    FailsWith a.MayFail (a.apply (op.map .text)) := by
  cases op with
  | create file content => exact failsWith_create a file content
  | delete file =>
    exact mayFail ((endsOnly_locateFile a file).bind fun _ => endsOnly_change _ _)
  | rename source target => exact failsWith_rename a source target
  | edit file search replacement => exact mayFail (endsOnly_edit a file search replacement)
  | overwrite file content =>
    exact mayFail ((endsOnly_locateFile a file).bind fun _ => endsOnly_change _ _)

/-! ## Batches -/

/-- How an operation breaks off a batch, when it is its turn on the host `h`. -/
inductive BreaksOff (a : Applier) (op : Operation Value) (h : Host) : Failure → Prop
  /-- Its question meets the end of the input. -/
  | question (ho : (outcome (a.apply op) h).1 = .error .interrupted) (hn : ¬ a.Answers) :
    BreaksOff a op h .interrupted
  /-- The machine cannot nest calls as deep as it takes. -/
  | machine (ho : (outcome (a.apply op) h).1 = .error .tooDeep) (hn : a.nesting ≠ none) :
    BreaksOff a op h .tooDeep
  /-- What has become of it cannot be noted. -/
  | note {j : Journal} {entry : Text} {f : Failure} (hj : a.journal = some j)
      (hw : (outcome (j.write entry) (outcome (a.apply op) h).2).1 = .error f) : BreaksOff a op h f

/-- An operation breaks off a batch in one of these ways. -/
theorem breaksOff_of_applyNext {op : Operation Text} {h h' : Host} {f : Failure}
    (ho : outcome (a.applyNext {} (op.map .text)) h = (.error f, h')) :
    a.BreaksOff (op.map .text) h f := by
  have hnoted {entry : Text} {r : BatchReport} {k : Host}
      (hk : k = (outcome (a.apply (op.map .text)) h).2)
      (hn : outcome (a.note entry >>= fun _ => pure r) k = (.error f, h')) :
      a.BreaksOff (op.map .text) h f := by
    rw [note] at hn
    split at hn
    · rename_i j hj
      have hwrite : (outcome (j.write entry) k).1 = .error f := by
        rw [outcome_bind] at hn
        rcases hw : outcome (j.write entry) k with ⟨f' | _, k'⟩
        · obtain ⟨rfl, -⟩ : f' = f ∧ k' = h' := by simpa [hw] using hn
          rfl
        · rw [hw] at hn
          cases hn
      exact .note hj (hk ▸ hwrite)
    · cases hn
  rw [outcome_applyNext] at ho
  rcases happly : outcome (a.apply (op.map .text)) h with ⟨f' | _, k⟩
  · simp only [happly] at ho
    split at ho
    · exact hnoted (by rw [happly]) ho
    · rename_i hends
      obtain ⟨rfl, rfl⟩ : f' = f ∧ k = h' := by simpa using ho
      obtain ⟨rfl, hn⟩ | ⟨rfl, hn⟩ := (failsWith_apply a op h f' (by rw [happly])).resolve_left hends
      · exact .question (by rw [happly]) hn
      · exact .machine (by rw [happly]) hn
  · simp only [happly] at ho
    exact hnoted (by rw [happly]) ho

/-- **A batch that is broken off has come to an operation that breaks it off.** Those before it have
come to their ends; what has been carried out is what they report as applied, and the operation
itself if only its note is missing. -/
theorem exists_breaksOff {ops : List (Operation Text)} {h h' : Host} {f : Failure}
    (ho : outcome (a.applyAll (ops.map (·.map .text))) h = (.error f, h')) :
    ∃ earlier op later r k, ops = earlier ++ op :: later ∧
      outcome (a.applyAll (earlier.map (·.map .text))) h = (.ok r, k) ∧
      a.BreaksOff (op.map .text) k f ∧
      a.carriedOut (ops.map (·.map .text)) h =
        r.applied ++ if a.isCarriedOut (op.map .text) k then [op.map .text] else [] := by
  induction ops generalizing h with
  | nil => exact nomatch ho
  | cons op ops ih =>
    rw [List.map_cons, applyAll_cons, outcome_bind] at ho
    rw [List.map_cons, carriedOut]
    rcases hnext : outcome (a.applyNext {} (op.map .text)) h with ⟨f' | s, h₁⟩
    · simp only [hnext] at ho
      obtain ⟨rfl, rfl⟩ : f' = f ∧ h₁ = h' := by simpa using ho
      exact ⟨[], op, ops, {}, h, rfl, rfl, breaksOff_of_applyNext hnext, by simp⟩
    · simp only [hnext, outcome_map] at ho
      rcases hrest : outcome (a.applyAll (ops.map (·.map .text))) h₁ with ⟨f' | s', h₂⟩
      · simp only [hrest] at ho
        obtain ⟨rfl, rfl⟩ : f' = f ∧ h₂ = h' := by simpa [Except.map] using ho
        obtain ⟨earlier, op', later, r, k, rfl, hearlier, hbreaks, hdone⟩ := ih hrest
        refine ⟨op :: earlier, op', later, s ++ r, k, rfl, ?_, hbreaks, ?_⟩
        · rw [List.map_cons, applyAll_cons, outcome_bind_of_ok hnext, outcome_map, hearlier]
          rfl
        · rw [BatchReport.applied_append, applied_of_applyNext hnext, List.append_assoc, ← hdone]
      · simp [hrest, Except.map] at ho

end Applier

end ReplyLedger
