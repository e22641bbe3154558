import ReplyLedger.Proofs.Applier.Locating
import ReplyLedger.Proofs.Ledger.Granting
import ReplyLedger.Proofs.Operation.CanonicalPaths

/-!
# The paths of a reply, as they are recorded and acted on

The operations of a reply hold their paths in canonical form, questions are asked by these paths, and
they are what is recorded among the affected files. Where an operation acts is found from the path in
canonical form once more. `Ledger.recorded_paths` says when that is the recorded path: exactly if there
are no blanks around it.
-/

namespace ReplyLedger

open FileSystem Text Json

variable {reply q : Text} {op : Operation Text}

/-! ## Paths of operations -/

namespace Reply

/-- The paths that the operations of a reply name. -/
def paths (reply : Text) : List Text := (operations reply).flatMap Operation.paths

theorem paths_of_fileOperation? {path body : Text} (h : fileOperation? path body = some op) :
    op.paths = [path] := by
  unfold fileOperation? at h
  dsimp only at h
  split at h
  · obtain ⟨_, -, rfl⟩ := Option.map_eq_some_iff.1 h
    rfl
  · split at h
    · exact nomatch h
    · rw [← Option.some.inj h]
      rfl

/-- A block has its paths in canonical form. -/
theorem exists_canonicalPath_of_blockOperation? {marker : Marker} {argument body : Text}
    (h : blockOperation? marker argument body = some op) (hq : q ∈ op.paths) :
    ∃ p, canonicalPath p = q := by
  obtain ⟨hread, -⟩ := Option.filter_eq_some_iff.1 h
  cases marker with
  | create | delete =>
    obtain rfl := Option.some.inj hread
    exact ⟨argument, (List.mem_singleton.1 hq).symm⟩
  | rename =>
    obtain ⟨⟨source, target⟩, -, rfl⟩ := Option.map_eq_some_iff.1 hread
    rcases List.mem_cons.1 hq with rfl | hq
    · exact ⟨source, rfl⟩
    · exact ⟨target, (List.mem_singleton.1 hq).symm⟩
  | file =>
    rw [paths_of_fileOperation? hread] at hq
    exact ⟨argument, (List.mem_singleton.1 hq).symm⟩

/-- Every operation that is found is that of a block. -/
theorem exists_block_of_findingsFrom (offset : Nat) (t : Text) :
    ∀ f ∈ findingsFrom offset t, ∀ op, f.operation? = some op →
      ∃ marker argument body, blockOperation? marker argument body = some op := by
  fun_induction findingsFrom offset t with
  | case1 offset t e =>
    intro f hf
    cases hf
  | case2 offset t before h rest e start bodyStart hc ih =>
    refine List.forall_mem_cons.2 ⟨fun op hop => ?_, ih⟩
    cases hop
  | case3 offset t before h rest e start bodyStart body after hc skipped h' r e' ih =>
    refine List.forall_mem_cons.2 ⟨fun op hop => ?_, ih⟩
    cases hop
  | case4 offset t before h rest e start bodyStart body after hc e' ih =>
    refine List.forall_mem_cons.2 ⟨fun op hop => ?_, ih⟩
    unfold blockFinding at hop
    split at hop
    · rename_i op' hread
      exact ⟨_, _, _, hread.trans hop⟩
    · cases hop

/-- **Every path of a reply is the canonical form of one.** -/
theorem exists_canonicalPath_of_mem_paths (hq : q ∈ paths reply) : ∃ p, canonicalPath p = q := by
  obtain ⟨op, hop, hq⟩ := List.mem_flatMap.1 hq
  obtain ⟨f, hf, hop⟩ := List.mem_filterMap.1 hop
  obtain ⟨_, _, _, hblock⟩ := exists_block_of_findingsFrom 0 (payload reply) f hf op hop
  exact exists_canonicalPath_of_blockOperation? hblock hq

end Reply

/-- The way that a path leads as it is written, below the root of the workspace. -/
def Workspace.writtenWay (w : Workspace) (path : Text) : Way :=
  ([], ((FilePath.ofNames w.root).join (.ofText path)).names)

/-! ## Questions -/

namespace Applier

variable {a : Applier} {c c' : Confirm}

/-- The applier with answers to its questions. -/
def asking (a : Applier) (confirm : Confirm) : Applier := { a with confirm := some confirm }

/-- An operation asks about nothing but its paths. -/
theorem apply_asking_congr (h : ∀ q ∈ op.paths, c q = c' q) :
    (a.asking c).apply (op.map .text) = (a.asking c').apply (op.map .text) := by
  cases op with
  | create file content =>
    have hasked : (a.asking c).mayOverwrite file = (a.asking c').mayOverwrite file := by
      simp only [mayOverwrite, asking, Action.ask, h file List.mem_cons_self]
    simp only [Operation.map, apply, needText, pure_bind, create, hasked]
    rfl
  | _ => rfl

theorem applyNext_asking_congr (h : ∀ q ∈ op.paths, c q = c' q) (r : BatchReport) :
    (a.asking c).applyNext r (op.map .text) = (a.asking c').applyNext r (op.map .text) := by
  rw [applyNext, apply_asking_congr h]
  rfl

/-- A batch asks about nothing but the paths of its operations. -/
theorem applyAll_asking_congr {ops : List (Operation Text)}
    (h : ∀ op ∈ ops, ∀ q ∈ op.paths, c q = c' q) :
    (a.asking c).applyAll (ops.map (·.map .text)) =
      (a.asking c').applyAll (ops.map (·.map .text)) := by
  have hfold : ∀ r, (ops.map (·.map .text)).foldlM (a.asking c).applyNext r =
      (ops.map (·.map .text)).foldlM (a.asking c').applyNext r := by
    induction ops with
    | nil =>
      intro r
      rw [List.map_nil, List.foldlM_nil, List.foldlM_nil]
    | cons op ops ih =>
      intro r
      obtain ⟨hop, hops⟩ := List.forall_mem_cons.1 h
      rw [List.map_cons, List.foldlM_cons, List.foldlM_cons, applyNext_asking_congr hop]
      exact bind_congr fun r' => ih hops r'
  exact hfold {}

/-- What is carried out of a batch was in it. -/
theorem carriedOut_subset (a : Applier) (ops : List (Operation Value)) (h : Host) :
    a.carriedOut ops h ⊆ ops := by
  induction ops generalizing h with
  | nil => exact List.Subset.refl []
  | cons op ops ih =>
    rw [carriedOut]
    refine List.append_subset.2 ⟨?_, ?_⟩
    · split
      · exact List.cons_subset.2 ⟨List.mem_cons_self, List.nil_subset _⟩
      · exact List.nil_subset _
    · split
      · exact List.subset_cons_of_subset op (ih _)
      · exact List.nil_subset _

end Applier

/-! ## Records -/

/-- The affected files of a task are the old ones and paths of the operations that are recorded. -/
theorem Task.mem_affected_of_record {t : Task} {ops : List (Operation Value)} {v : Value}
    (hv : v ∈ (t.record ops).affected) : v ∈ t.affected ∨ ∃ op ∈ ops, v ∈ op.paths := by
  rw [Task.record] at hv
  split at hv
  · exact .inl hv
  · rcases List.mem_append.1 hv with hv | hv
    · exact .inl hv
    · exact .inr (List.mem_flatMap.1 (IsTextual.mem_of_mem_additions hv))

namespace Ledger

variable {a : Applier} {desk : Desk} {t : Task}

/-- Whatever becomes of a reply, the current task is the one before, or that with operations of the
reply recorded. -/
theorem current_applyReply (a : Applier) (reply : Text) (hc : desk.ledger.current = some t) :
    ∃ applied ⊆ (Reply.operations reply).map (fun op => op.map Value.text),
      (outcome (applyReply a reply) desk).2.ledger.current = some (t.record applied) := by
  obtain ⟨console, -, hread⟩ := outcome_readReply reply desk.host
  rcases hops : Reply.operations reply with _ | ⟨op, ops⟩
  · rw [hops] at hread
    rw [outcome_applyReply_nil hc hread]
    exact ⟨[], List.Subset.refl _, hc⟩
  have hne : (Reply.operations reply).map (fun op => op.map Value.text) ≠ [] := by simp [hops]
  rcases hbatch : outcome (a.applyAll ((Reply.operations reply).map fun op => op.map Value.text))
    { desk.host with console } with ⟨f | r, h'⟩
  · rw [applyReply_of_brokenOff hc hread hbatch]
    exact ⟨[], List.nil_subset _, hc⟩
  rw [outcome_applyReply hc hread hbatch hne]
  split
  · exact ⟨[], List.nil_subset _, hc⟩
  · refine ⟨r.applied, ?_, ?_⟩
    · rw [← hops, Applier.applied_eq_carriedOut hbatch]
      exact Applier.carriedOut_subset _ _ _
    · have hledger := Desk.ledger_saveCurrent (t.record r.applied) { desk with host := h' }
      rcases hsave : outcome (saveCurrent (t.record r.applied)) { desk with host := h' } with
        ⟨f | _, after⟩
      · rw [hsave] at hledger
        exact congrArg Ledger.current hledger
      · rw [hsave] at hledger
        exact congrArg Ledger.current hledger

/-- A reply comes to the same with answers that agree on its paths. -/
theorem outcome_applyReply_asking_congr {c c' : Confirm} (hc : desk.ledger.current = some t)
    (h : ∀ q ∈ Reply.paths reply, c q = c' q) :
    outcome (applyReply (a.asking c) reply) desk = outcome (applyReply (a.asking c') reply) desk := by
  obtain ⟨console, -, hread⟩ := outcome_readReply reply desk.host
  have hall : (a.asking c).applyAll ((Reply.operations reply).map fun op => op.map Value.text) =
      (a.asking c').applyAll ((Reply.operations reply).map fun op => op.map Value.text) :=
    Applier.applyAll_asking_congr fun op hop q hq => h q (List.mem_flatMap.2 ⟨op, hop, hq⟩)
  rw [applyReply, outcome_bind_of_ok (outcome_needCurrent_of_current hc),
    outcome_bind_of_ok (outcome_lift_of_eq hread), hall, applyReply,
    outcome_bind_of_ok (outcome_needCurrent_of_current hc),
    outcome_bind_of_ok (outcome_lift_of_eq hread)]

/-- **The paths of a reply are recorded as they are acted on, unless there are blanks around them.**
Putting a path in canonical form a second time changes nothing exactly if there are no blanks around
its canonical form, as when there are none around any of its segments. Whatever a reply is, its
operations hold such forms; those without blanks around them lead from the root of the workspace the
way that is written there, and the others are not the paths that are acted on. Questions are asked
about these paths alone, and nothing else becomes an affected file of the current task. -/
theorem recorded_paths (a : Applier) (reply : Text) (hc : desk.ledger.current = some t) :
    (∀ p, (canonicalPath (canonicalPath p) = canonicalPath p ↔
          strip (canonicalPath p) = canonicalPath p) ∧
        ((∀ s ∈ segments '/' (slashed (strip p)), strip s = s) →
          strip (canonicalPath p) = canonicalPath p)) ∧
      (∀ q ∈ Reply.paths reply, (canonicalPath q = q ↔ strip q = q) ∧
        (strip q = q → ∀ w : Workspace, w.way q = w.writtenWay q)) ∧
      (∀ c c' : Confirm, (∀ q ∈ Reply.paths reply, c q = c' q) →
        outcome (applyReply (a.asking c) reply) desk =
          outcome (applyReply (a.asking c') reply) desk) ∧
      ∃ current, (outcome (applyReply a reply) desk).2.ledger.current = some current ∧
        ∀ v ∈ current.affected, v ∈ t.affected ∨ ∃ q ∈ Reply.paths reply, v = .text q := by
  have hiff : ∀ q ∈ Reply.paths reply, canonicalPath q = q ↔ strip q = q := by
    intro q hq
    obtain ⟨p, rfl⟩ := Reply.exists_canonicalPath_of_mem_paths hq
    exact canonicalPath_canonicalPath_iff p
  refine ⟨fun p => ⟨canonicalPath_canonicalPath_iff p, strip_canonicalPath_of_segments⟩,
    fun q hq => ⟨hiff q hq, fun hs w => ?_⟩,
    fun c c' h => outcome_applyReply_asking_congr hc h, ?_⟩
  · rw [Workspace.way, (hiff q hq).2 hs, Workspace.writtenWay]
  · obtain ⟨applied, happlied, hcurrent⟩ := current_applyReply a reply hc
    refine ⟨_, hcurrent, fun v hv => (Task.mem_affected_of_record hv).imp_right ?_⟩
    rintro ⟨op, hop, hv⟩
    obtain ⟨given, hgiven, rfl⟩ := List.mem_map.1 (happlied hop)
    rw [Operation.paths_map] at hv
    obtain ⟨q, hq, rfl⟩ := List.mem_map.1 hv
    exact ⟨q, List.mem_flatMap.2 ⟨given, hgiven, hq⟩, rfl⟩

/-- A reply with a path to be tidied. -/
def tidyReply : Text := "<<<CREATE: .\\d// n m >>>t<<<END>>>".toList

/-- Its path holds a blank, but has none around it: it is recorded and acted on as `d/ n m`. -/
theorem recorded_paths_tidyReply :
    Reply.paths tidyReply = ["d/ n m".toList] ∧ canonicalPath "d/ n m" = "d/ n m".toList ∧
      plainApplier.workspace.way "d/ n m" = plainApplier.workspace.writtenWay "d/ n m" ∧
      ∃ current, (outcome (applyReply plainApplier tidyReply) apartDesk).2.ledger.current =
          some current ∧
        ∀ v ∈ current.affected, v = .text "d/ n m" := by
  have hpaths : Reply.paths tidyReply = ["d/ n m".toList] := by decide +kernel
  have hc : apartDesk.ledger.current = some plainTask := rfl
  obtain ⟨-, hq, -, current, hcurrent, haffected⟩ := recorded_paths plainApplier tidyReply hc
  rw [hpaths] at hq haffected
  obtain ⟨hiff, hway⟩ := hq _ (List.mem_singleton_self _)
  have hstrip : strip "d/ n m" = "d/ n m".toList := by decide
  refine ⟨hpaths, hiff.2 hstrip, hway hstrip _, current, hcurrent, fun v hv => ?_⟩
  rcases haffected v hv with hv | ⟨q, hq, rfl⟩
  · exact absurd hv List.not_mem_nil
  · rw [List.mem_singleton.1 hq]

/-- A reply with a path whose first segment is to be left out, and whose second one begins with a
blank. -/
def indentedReply : Text := "<<<CREATE: ./ a>>>t<<<END>>>".toList

/-- The blank is left in front of the path that is recorded, and is taken away from the one that is
acted on: the file that is made is `a`. -/
theorem recorded_paths_indentedReply :
    let after := (outcome (applyReply plainApplier indentedReply) apartDesk).2
    canonicalPath (canonicalPath "./ a") ≠ canonicalPath "./ a" ∧
      Reply.paths indentedReply = [" a".toList] ∧
      after.ledger.current.map (fun t => t.affected.map Value.plain) = some [" a".toList] ∧
      after.host.files.entryAt [['w'], " a"] = none ∧
      after.host.files.entryAt [['w'], ['a']] = some (.file (Utf8.encode ['t'])) := by
  intro after
  exact ⟨by decide, by decide +kernel, by decide +kernel, by decide +kernel, by decide +kernel⟩

end Ledger

end ReplyLedger
