import ReplyLedger.Proofs.Applier.Accounting
import ReplyLedger.Proofs.Text.Lines

/-!
# What the notes of a batch show

The note about an operation shows the paths of the operation as they are, and so does the reason that
it gives for a failure, except that a move of a directory below itself shows two locations
(`Applier.shown`). Everything else in a note is on one line: words, numbers, and texts between
quotation marks. So a note is on one line exactly if what it shows as it is is (`oneLine_noteOn_iff`).
-/

namespace ReplyLedger

open Json Text

/-! ## Failures of calls -/

namespace Failure

/-- Whether a failure is that of a call of the operating system, or of reading what it returns. -/
def IsOfCall : Failure → Prop
  | .system _ _ | .badName | .undecodable _ => True
  | _ => False

end Failure

namespace Action

theorem ofCall_get : FailsWith Failure.IsOfCall (get : Action Host) := fun _ _ hf => nomatch hf

theorem ofCall_call {α : Type} (path : Text)
    (f : FileSystem → CurrentDirectory → Except Errno α) :
    FailsWith Failure.IsOfCall (call path f) := by
  unfold call
  split
  · exact failsWith_fail trivial
  · refine ofCall_get.bind fun h => ?_
    rcases f h.files h.cwd with error | a
    · exact failsWith_fail trivial
    · exact failsWith_pure a

theorem ofCall_change (path : Text)
    (f : FileSystem → CurrentDirectory → Except Errno FileSystem) :
    FailsWith Failure.IsOfCall (change path f) :=
  (ofCall_call path f).bind fun _ _ _ hf => nomatch hf

theorem ofCall_status? (path : Text) : FailsWith Failure.IsOfCall (status? path) := by
  unfold status?
  split
  · exact failsWith_pure _
  · refine ofCall_get.bind fun h => ?_
    split
    · exact failsWith_pure _
    · exact failsWith_pure _
    · exact failsWith_pure _
    · exact failsWith_pure _
    · exact failsWith_fail trivial

theorem ofCall_pathExists (path : Text) : FailsWith Failure.IsOfCall (pathExists path) :=
  (ofCall_status? path).bind fun _ => failsWith_pure _

theorem ofCall_isDirectory (path : Text) : FailsWith Failure.IsOfCall (isDirectory path) :=
  (ofCall_status? path).bind fun _ => failsWith_pure _

theorem ofCall_isFile (path : Text) : FailsWith Failure.IsOfCall (isFile path) := by
  refine (ofCall_status? path).bind fun e => ?_
  split <;> exact failsWith_pure _

theorem ofCall_readText (path : Text) : FailsWith Failure.IsOfCall (readText path) := by
  refine (ofCall_call path _).bind fun bytes => ?_
  split
  · exact failsWith_pure _
  · exact failsWith_fail trivial

theorem ofCall_ensureDirectory (path : Text) :
    FailsWith Failure.IsOfCall (ensureDirectory path) := by
  refine (ofCall_change path _).rescue (fun f hf => ?_) fun f hf _ => hf
  refine (ofCall_isDirectory path).bind fun there => ?_
  cases there with
  | true => exact failsWith_pure ()
  | false => exact failsWith_fail hf

theorem ofCall_ensureDirectories (path : FilePath) :
    FailsWith Failure.IsOfCall (ensureDirectories path) := by
  unfold ensureDirectories
  induction path.names.reverse with
  | nil => exact ofCall_ensureDirectory _
  | cons name above ih =>
    refine (ofCall_ensureDirectory _).rescue (fun f _ => ?_) fun f hf _ => hf
    exact ih.bind fun _ => ofCall_ensureDirectory _

end Action

/-! ## Failures of operations -/

/-- The path that a precondition is about. -/
def Precondition.path : Precondition → Text
  | .isDirectory path | .noFile path | .noSource path | .targetExists path | .notFound path => path

namespace Failure

/-- Whether a failure can be that of an operation with these paths. -/
def Concerns (paths : List Text) : Failure → Prop
  | .outside path | .declined path => path ∈ paths
  | .unmet condition => condition.path ∈ paths
  | .invalidPath _ cause => OneLine cause
  | .linking _ _ _ | .intoItself _ _ | .copying _ | .interrupted | .tooDeep => True
  | f => f.IsOfCall

theorem IsOfCall.concerns {f : Failure} (hf : f.IsOfCall) (paths : List Text) :
    f.Concerns paths := by
  cases f <;> first | exact hf | exact hf.elim

end Failure

namespace Applier

open ReplyLedger.Action Workspace

variable {a : Applier} {paths : List Text} {path : Text}

theorem concerns_ofCall {α : Type} {act : Action α} (ha : FailsWith Failure.IsOfCall act) :
    FailsWith (Failure.Concerns paths) act := ha.mono fun _ hf => hf.concerns paths

theorem concerns_locate (hp : path ∈ paths) :
    FailsWith (Failure.Concerns paths) (a.locate path) := by
  intro h f hf
  rw [locate, outcome_map, outcome_resolveIn, locationOf] at hf
  split at hf
  · obtain rfl := Except.error.inj hf
    exact (by decide : OneLine Failure.badName.message)
  · obtain rfl := Except.error.inj hf
    exact oneLine_append.2 ⟨by decide, oneLine_quote _⟩
  · split at hf
    · cases hf
    · obtain rfl := Except.error.inj hf
      exact hp

theorem concerns_locateFile (hp : path ∈ paths) :
    FailsWith (Failure.Concerns paths) (a.locateFile path) := by
  refine (concerns_locate hp).bind fun target => ?_
  refine (concerns_ofCall (ofCall_isFile _)).bind fun there => ?_
  cases there with
  | true => exact failsWith_pure _
  | false => exact failsWith_fail hp

theorem concerns_mayOverwrite (a : Applier) (path : Text) :
    FailsWith (Failure.Concerns paths) (a.mayOverwrite path) := by
  unfold mayOverwrite
  split
  · rename_i confirm _
    intro h f hf
    rw [ask, outcome_bind_of_ok (outcome_get h)] at hf
    rcases hc : confirm path h.console with ⟨_ | answer, console⟩
    · rw [hc] at hf
      obtain rfl : .interrupted = f := Except.error.inj hf
      trivial
    · rw [hc] at hf
      cases hf
  · exact failsWith_pure false

theorem concerns_makeRoom (a : Applier) (target : FilePath) :
    FailsWith (Failure.Concerns paths) (a.makeRoom target) := by
  refine ((failsWith_checkDepth a _).mono fun f hf => ?_).bind fun _ =>
    concerns_ofCall (ofCall_ensureDirectories _)
  rw [hf.1]
  trivial

theorem concerns_create (a : Applier) (path content : Text) :
    FailsWith (Failure.Concerns [path]) (a.create path (.text content)) := by
  have hp : path ∈ [path] := List.mem_singleton_self path
  refine (concerns_locate hp).bind fun target => ?_
  have hend : FailsWith (Failure.Concerns [path]) (a.makeRoom target >>= fun _ =>
      writeValue target.text (.text content)) :=
    (concerns_makeRoom a target).bind fun _ => concerns_ofCall (ofCall_change _ _)
  refine (concerns_ofCall (ofCall_isDirectory _)).bind fun there => FailsWith.unless hp ?_
  refine (concerns_ofCall (ofCall_pathExists _)).bind fun there => ?_
  dsimp only
  split
  · exact (concerns_mayOverwrite a path).bind fun agreed => FailsWith.unless hp hend
  · exact hend

theorem concerns_moveByCopy (a : Applier) (src dst : FileSystem.Place) :
    FailsWith (Failure.Concerns paths) (a.moveByCopy src dst) := by
  refine (concerns_ofCall ofCall_get).bind fun h => ?_
  refine FailsWith.bind (fun _ _ hf => nomatch hf) fun _ => ?_
  split
  · exact fun _ _ hf => nomatch hf
  · exact failsWith_fail trivial
  · exact failsWith_fail trivial
  · exact failsWith_fail trivial

theorem concerns_move (a : Applier) (source target : Text) :
    FailsWith (Failure.Concerns paths) (a.move source target) := by
  refine (concerns_ofCall ofCall_get).bind fun h => ?_
  split
  · exact fun _ _ hf => nomatch hf
  · exact concerns_moveByCopy a _ _
  · exact failsWith_fail trivial
  · exact failsWith_fail trivial
  · exact failsWith_fail trivial

theorem concerns_rename (a : Applier) (source target : Text) :
    FailsWith (Failure.Concerns [source, target]) (a.rename source (.text target)) := by
  have hs : source ∈ [source, target] := List.mem_cons_self
  have ht : target ∈ [source, target] := List.mem_cons_of_mem _ (List.mem_singleton_self _)
  refine (concerns_locate hs).bind fun src => ?_
  rw [needText_text, pure_bind]
  refine (concerns_locate ht).bind fun dst => ?_
  refine (concerns_ofCall (ofCall_pathExists _)).bind fun there => FailsWith.unless hs ?_
  refine (concerns_ofCall (ofCall_pathExists _)).bind fun taken => FailsWith.unless ht ?_
  exact (concerns_makeRoom a dst).bind fun _ => concerns_move a _ _

theorem concerns_edit (a : Applier) (path search replacement : Text) :
    FailsWith (Failure.Concerns [path]) (a.edit path (.text search) (.text replacement)) := by
  have hp : path ∈ [path] := List.mem_singleton_self path
  refine (concerns_locateFile hp).bind fun target => ?_
  refine (concerns_ofCall (ofCall_readText _)).bind fun content => ?_
  rw [needText_text, pure_bind]
  refine FailsWith.unless hp ?_
  rw [needText_text, pure_bind]
  exact concerns_ofCall ((ofCall_change _ _).bind fun _ _ _ hf => nomatch hf)

/-- **An operation fails by a call, or for a reason that is about its paths.** -/
theorem concerns_apply (a : Applier) (op : Operation Text) :
    FailsWith (Failure.Concerns op.paths) (a.apply (op.map .text)) := by
  cases op with
  | create file content => exact concerns_create a file content
  | delete file =>
    exact (concerns_locateFile (List.mem_singleton_self _)).bind fun _ =>
      concerns_ofCall (ofCall_change _ _)
  | rename source target => exact concerns_rename a source target
  | edit file search replacement => exact concerns_edit a file search replacement
  | overwrite file content =>
    exact (concerns_locateFile (List.mem_singleton_self _)).bind fun _ =>
      concerns_ofCall (ofCall_change _ _)

end Applier

/-! ## Messages -/

/-- What the message about the failure of an operation shows as it is. -/
def Failure.shown : Failure → List Text
  | .outside path | .declined path => [path]
  | .unmet condition => [condition.path]
  | .intoItself source target => [source, target]
  | _ => []

theorem Errno.oneLine_message (e : Errno) : OneLine e.message := by
  cases e <;> decide

theorem Utf8.DecodeFault.oneLine_message (f : Utf8.DecodeFault) : OneLine f.message := by
  have hflaw : OneLine f.flaw.reason := by
    cases f.flaw <;> decide
  unfold message
  dsimp only
  refine oneLine_append.2 ⟨oneLine_append.2 ⟨oneLine_append.2 ⟨by decide, ?_⟩, by decide⟩, hflaw⟩
  split
  · exact oneLine_append.2 ⟨oneLine_append.2 ⟨oneLine_append.2 ⟨by decide, oneLine_ofHexPadded _ _⟩,
      by decide⟩, oneLine_ofNat _⟩
  · exact oneLine_append.2 ⟨oneLine_append.2 ⟨oneLine_append.2 ⟨by decide, oneLine_ofNat _⟩,
      by decide⟩, oneLine_ofNat _⟩

theorem Errno.oneLine_about (e : Errno) (path : Text) : OneLine (e.about path) :=
  oneLine_append.2 ⟨oneLine_append.2 ⟨e.oneLine_message, by decide⟩, oneLine_quote _⟩

theorem Errno.oneLine_aboutLink (e : Errno) (content path : Text) :
    OneLine (e.aboutLink content path) :=
  oneLine_append.2 ⟨oneLine_append.2 ⟨oneLine_append.2 ⟨oneLine_append.2
    ⟨e.oneLine_message, by decide⟩, oneLine_quote _⟩, by decide⟩, oneLine_quote _⟩

theorem FileSystem.CopyFault.oneLine_shown (fault : FileSystem.CopyFault) : OneLine fault.shown :=
  oneLine_append.2 ⟨oneLine_append.2 ⟨by decide, oneLine_joinWith (by decide)
    (List.forall_mem_map.2 fun _ _ => oneLine_quote _)⟩, by decide⟩

theorem Precondition.oneLine_message_iff (condition : Precondition) :
    OneLine condition.message ↔ OneLine condition.path := by
  cases condition <;> unfold message path <;> rw [oneLine_append]
  case isDirectory => exact and_iff_left (by decide)
  case noFile | noSource | targetExists =>
    rw [oneLine_append]
    exact ⟨fun h => h.1.2, fun h => ⟨⟨by decide, h⟩, by decide⟩⟩
  case notFound => exact and_iff_right (by decide)

namespace Failure

variable {f : Failure} {paths : List Text}

/-- **A message about the failure of an operation is on one line exactly if what it shows as it is
is.** -/
theorem oneLine_message_iff (hf : f.Concerns paths) :
    OneLine f.message ↔ ∀ t ∈ f.shown, OneLine t := by
  -- messages that show nothing as it is
  have hnone (hm : OneLine f.message) (hs : f.shown = []) :
      OneLine f.message ↔ ∀ t ∈ f.shown, OneLine t := by simp [hm, hs]
  cases f with
  | outside path =>
    unfold message shown
    rw [List.forall_mem_singleton, oneLine_append]
    exact and_iff_right (by decide)
  | declined path =>
    unfold message shown
    rw [List.forall_mem_singleton, oneLine_append, oneLine_append]
    exact ⟨fun h => h.1.2, fun h => ⟨⟨by decide, h⟩, by decide⟩⟩
  | unmet condition =>
    unfold message shown
    rw [List.forall_mem_singleton]
    exact condition.oneLine_message_iff
  | intoItself source target =>
    unfold message shown
    rw [List.forall_mem_cons, List.forall_mem_singleton]
    simp only [oneLine_append]
    exact ⟨fun h => ⟨h.1.1.1.2, h.1.2⟩,
      fun h => ⟨⟨⟨⟨by decide, h.1⟩, by decide⟩, h.2⟩, by decide⟩⟩
  | invalidPath path cause =>
    exact hnone (oneLine_append.2
      ⟨oneLine_append.2 ⟨oneLine_append.2 ⟨by decide, oneLine_quote _⟩, by decide⟩, hf⟩) rfl
  | system error path => exact hnone (error.oneLine_about path) rfl
  | linking error content path => exact hnone (error.oneLine_aboutLink content path) rfl
  | undecodable fault => exact hnone fault.oneLine_message rfl
  | badName => exact hnone (by decide) rfl
  | copying faults =>
    refine hnone (oneLine_append.2 ⟨oneLine_append.2 ⟨by decide, oneLine_joinWith (by decide) ?_⟩,
      by decide⟩) rfl
    exact List.forall_mem_map.2 fun fault _ => fault.oneLine_shown
  | interrupted => exact hnone oneLine_nil rfl
  | tooDeep => exact hnone oneLine_nil rfl
  | _ => exact hf.elim

/-- What is shown as it is are paths of the operation, unless a directory is moved below itself. -/
theorem shown_subset (hf : f.Concerns paths) (hn : ∀ source target, f ≠ .intoItself source target) :
    f.shown ⊆ paths := by
  intro t ht
  cases f with
  | outside path => exact List.mem_singleton.1 ht ▸ hf
  | declined path => exact List.mem_singleton.1 ht ▸ hf
  | unmet condition => exact List.mem_singleton.1 ht ▸ hf
  | intoItself source target => exact absurd rfl (hn source target)
  | _ => simp [shown] at ht

end Failure

namespace Applier

/-! ## Notes -/

/-- The note about an operation that has come to a result. -/
def noteOn (op : Operation Value) : Except Failure Unit → Text
  | .ok _ => "✓ " ++ op.kind.word ++ ": " ++ op.label Value.plain
  | .error f => "✗ " ++ op.kind.word ++ ": " ++ f.message

/-- What the note about an operation shows as it is. -/
def shown (op : Operation Value) : Except Failure Unit → List Text
  | .ok _ => op.paths.map Value.plain
  | .error f => f.shown

end Applier

theorem Operation.oneLine_label_iff (op : Operation Value) :
    OneLine (op.label Value.plain) ↔ ∀ t ∈ op.paths.map Value.plain, OneLine t := by
  cases op with
  | rename source target =>
    simp only [label, paths, oneLine_append, List.map_cons, List.map_nil, List.forall_mem_cons]
    exact ⟨fun h => ⟨h.1.1, h.2, by simp⟩, fun h => ⟨⟨h.1, by decide⟩, h.2.1⟩⟩
  | _ => simp [label, paths]

theorem Operation.Kind.oneLine_word (kind : Operation.Kind) : OneLine kind.word := by
  cases kind <;> decide

namespace Applier

/-- **A note is on one line exactly if what it shows as it is is.** -/
theorem oneLine_noteOn_iff {op : Operation Text} {result : Except Failure Unit}
    (hf : ∀ f, result = .error f → f.Concerns op.paths) :
    OneLine (noteOn (op.map .text) result) ↔ ∀ t ∈ shown (op.map .text) result, OneLine t := by
  have hword := (op.map Value.text).kind.oneLine_word
  cases result with
  | ok _ =>
    rw [noteOn, shown, ← Operation.oneLine_label_iff]
    simp only [oneLine_append]
    exact ⟨fun h => h.2, fun h => ⟨⟨⟨by decide, hword⟩, by decide⟩, h⟩⟩
  | error f =>
    rw [noteOn, shown, ← Failure.oneLine_message_iff (hf f rfl)]
    simp only [oneLine_append]
    exact ⟨fun h => h.2, fun h => ⟨⟨⟨by decide, hword⟩, by decide⟩, h⟩⟩

end Applier

end ReplyLedger
