import ReplyLedger.Proofs.Ledger.Recording

/-!
# The ledger accounts for every changed file

The paths of recorded operations are among the affected files of their task (`mem_affected_record`).
So when a reply is applied in a workspace without links, for a ledger outside of it, the operations
that were applied are recorded, in memory and on the disk, and every regular file that has changed is
where a path of one of them leads, or below it (`applyReply_accounts`). Only a machine that cannot
nest its calls deep enough for one of the operations does not come to this.
-/

namespace ReplyLedger

open Json

/-! ## Affected files -/

theorem Json.Value.isAmong_text {t : Text} {vs : List Value} :
    Value.isAmong (.text t) vs ↔ .text t ∈ vs := by
  have hsame (w : Value) : Value.same w (.text t) ↔ w = .text t := by
    cases w <;> simp [Value.same, Value.number?]
  simp [Value.isAmong, hsame]

namespace Task

/-- A text that is to be added is there afterwards. -/
theorem mem_union_text {t : Text} {known vs : List Value} (h : .text t ∈ vs) :
    .text t ∈ union known vs := by
  rw [union]
  induction vs generalizing known with
  | nil => simp at h
  | cons v vs ih =>
    rw [additions]
    split
    · rename_i ha
      rcases List.mem_cons.1 h with rfl | h
      · exact List.mem_append_left _ (Value.isAmong_text.1 ha)
      · exact ih h
    · rcases List.mem_cons.1 h with rfl | h
      · simp
      · have hrest : .text t ∈ known ++ [v] ++ additions (known ++ [v]) vs := ih h
        rwa [List.append_assoc] at hrest

/-- The paths of recorded operations are among the affected files. -/
theorem mem_affected_record {t : Task} {ops : List (Operation Value)} {op : Operation Value}
    (hop : op ∈ ops) {path : Text} (hp : .text path ∈ op.paths) :
    .text path ∈ (t.record ops).affected := by
  rw [record, if_neg (by simpa using List.ne_nil_of_mem hop)]
  exact mem_union_text (List.mem_flatMap.2 ⟨op, hop, hp⟩)

/-- The operations of a task are the old ones, with those that are recorded behind them. -/
theorem operations_record (t : Task) (ops : List (Operation Value)) :
    (t.record ops).operations = t.operations ++ ops := by
  rw [record]
  split
  · rename_i h
    rw [List.isEmpty_iff.1 h, List.append_nil]
  · rfl

end Task

/-! ## Replies -/

namespace Ledger

open FileSystem Workspace

variable {a : Applier} {desk : Desk} {t : Task} {record : Location} {bytes : Bytes}

/-- A reply is broken off by a machine that cannot nest calls as deep as it takes. -/
def IsTooDeep (a : Applier) (reply : Text) (desk : Desk) : Prop :=
  a.nesting ≠ none ∧ (outcome (applyReply a reply) desk).1 = .error .tooDeep

/-- A reply whose batch is too deep is too deep, and nothing is recorded. -/
theorem IsTooDeep.of_applyAll {reply : Text} {ops : List (Operation Value)} {start : Host}
    (hc : desk.ledger.current = some t)
    (hread : outcome (readReply reply) desk.host = (.ok ops, start))
    (hdeep : a.IsTooDeep ops start) :
    IsTooDeep a reply desk ∧ (outcome (applyReply a reply) desk).2.ledger = desk.ledger := by
  have hout := applyReply_of_brokenOff hc hread (Prod.ext hdeep.2 rfl)
  exact ⟨⟨hdeep.1, congrArg Prod.fst hout⟩, by rw [hout]⟩

/-- **The ledger accounts for every changed file.** In a workspace without links, for a ledger whose
current task is recorded outside of it, and without a journal, a reply is applied to its end if the
questions are answered and the machine can nest its calls deep enough. The operations that were
applied are recorded behind the old ones, in memory and on the disk, with their paths among the
affected files; outside the workspace nothing else is written, and nothing at all if none was applied.
Every regular file in the workspace that has changed is where a path of an operation that was applied
leads, or below it, if a directory was moved. -/
theorem applyReply_accounts (hj : a.journal = none) (ha : a.Answers)
    (hu : desk.host.files.Unlinked a.workspace.root)
    (hk : desk.KeepsOutside a.workspace.root record t bytes) (reply : Text) :
    let ops := (Reply.operations reply).map fun op => op.map Value.text
    let start := (outcome (readReply reply) desk.host).2
    (∃ r after, outcome (applyReply a reply) desk = (.ok r, after) ∧
      r.operations = ops ∧ r.report.applied = a.carriedOut ops start ∧
      after.ledger = { desk.ledger with current := some (t.record r.report.applied) } ∧
      (t.record r.report.applied).operations = t.operations ++ r.report.applied ∧
      after.host.files.entryAt record = some (.file (recordedBytes t bytes r.report.applied)) ∧
      (∀ q, ¬ Below a.workspace.root q → r.report.applied = [] ∨ q ≠ record →
        after.host.files.entryAt q = desk.host.files.entryAt q) ∧
      (∀ op ∈ r.report.applied, ∀ path, .text path ∈ op.paths →
        .text path ∈ (t.record r.report.applied).affected) ∧
      ∀ q, Below a.workspace.root q → after.host.files.fileAt q ≠ desk.host.files.fileAt q →
        ∃ op ∈ r.report.applied, ∃ path, .text path ∈ op.paths ∧
          a.AccountsFor ops start op path q) ∨
    IsTooDeep a reply desk ∧ (outcome (applyReply a reply) desk).2.ledger = desk.ledger := by
  intro ops start
  obtain ⟨console, -, hread⟩ := outcome_readReply reply desk.host
  have hstart : start = { desk.host with console } := by simp only [start, hread]
  rw [← hstart] at hread
  have hfiles : start.files = desk.host.files := by rw [hstart]
  have hcwd : start.cwd = desk.host.cwd := by rw [hstart]
  rcases Applier.changed_applyAll (h := start) hj ha (hfiles ▸ hu) (Reply.operations reply) with
    ⟨r, h', hbatch, -, hc⟩ | hdeep
  swap
  · exact .inr (IsTooDeep.of_applyAll hk.current hread hdeep)
  have hconfined : Confined a.workspace.root desk.host.files h'.files := hfiles ▸ hc.confined
  have hrecorded : h'.files.entryAt record = some (.file bytes) :=
    (hconfined _ hk.keepsFile.outside).trans hk.recorded
  obtain ⟨host, hout, hwith⟩ := applyReply_of_batch hk.current hread hbatch
    (hk.keepsFile.confined hconfined (hcwd ▸ hc.cwd)).writes hrecorded
  refine .inl ⟨_, _, hout, rfl, Applier.applied_eq_carriedOut hbatch, rfl, Task.operations_record t _,
    (hwith.entryAt record).trans (if_pos rfl), fun q hq hne => ?_,
    fun op hop path hpath => Task.mem_affected_record hop hpath, fun q hq hchanged => ?_⟩
  · have hsame := hwith.entryAt q
    by_cases hqr : q = record
    · have hnone : r.applied = [] := hne.resolve_right (not_not.2 hqr)
      rw [hsame, if_pos hqr, hqr, hk.recorded, hnone]
      rfl
    · rw [hsame, if_neg hqr, hconfined q hq]
  · have hqr : q ≠ record := by
      rintro rfl
      exact hk.keepsFile.outside hq
    refine hc.fileAt q ?_
    rwa [hfiles, ← fileAt_congr ((hwith.entryAt q).trans (if_neg hqr))]

/-! ### A directory is moved -/

/-- A task without operations. -/
def plainTask : Task where
  id := ['a', '1']
  name := .text ['A']
  description := .text []
  created := .midnight (.ofInRange Date.inRange_firstDay)
  operations := []
  status := .pending
  affected := []
  included := []

/-- A workspace `/w` with a file in a directory, and the records of a ledger in `/s`. -/
def apartDesk : Desk where
  host :=
    let files := ((((FileSystem.empty.put [['w']] .directory).put [['w'], ['d']] .directory).put
      [['w'], ['d'], ['f']] (.file [0])).put [['s']] .directory).put
        [['s'], recordName ['a', '1']] (.file (recordBytes plainTask))
    { Host.ofFiles files with cwd := .present [['w']] }
  ledger :=
    { tasksDirectory := .ofNames [['s']]
      pointer := none
      vcs := .noting [] []
      current := some plainTask }

/-- The workspace of the files of `apartDesk`, without a journal. -/
def plainApplier : Applier := { workspace := ⟨[['w']]⟩ }

/-- The directory is moved; the file to be removed is not there; a file is made. -/
def movingReply : Text :=
  "<<<RENAME: d -> e>>><<<END>>><<<DELETE: x>>><<<END>>><<<CREATE: d/../n>>>t<<<END>>>".toList

theorem operations_movingReply : Reply.operations movingReply =
    [.rename ['d'] ['e'], .delete ['x'], .create ['d', '/', '.', '.', '/', 'n'] ['t']] := by
  decide +kernel

theorem keepsOutside_apartDesk :
    apartDesk.KeepsOutside [['w']] [['s'], recordName ['a', '1']] plainTask
      (recordBytes plainTask) := by
  have hpath : apartDesk.ledger.recordPath ['a', '1'] = _ := recordPath_eq _ (by decide)
  have hrecorded : apartDesk.host.files.entryAt [['s'], recordName ['a', '1']] =
      some (.file (recordBytes plainTask)) := by decide +kernel
  refine ⟨rfl, ?_, hrecorded⟩
  change apartDesk.host.KeepsFile [['w']] (apartDesk.ledger.recordPath ['a', '1']) _
  rw [hpath]
  refine .of_names (d := [['s']]) (by decide) (by decide) (fun hb => absurd hb.1 (by decide))
    (by decide) fun e he => ⟨_, (Option.some.inj (hrecorded.symm.trans he)).symm⟩

/-- The file in the directory is accounted for at its new place by the operation that moved the
directory. -/
theorem applyReply_accounts_movedDirectory :
    ∃ r after, outcome (applyReply plainApplier movingReply) apartDesk = (.ok r, after) ∧
      r.report.applied.map Operation.kind = [.rename, .create] ∧
      after.host.files.entryAt [['s'], recordName ['a', '1']] =
        some (.file (recordedBytes plainTask (recordBytes plainTask) r.report.applied)) ∧
      after.host.files.fileAt [['w'], ['e'], ['f']] = some [0] ∧
      ∃ op ∈ r.report.applied, ∃ path, .text path ∈ op.paths ∧
        plainApplier.AccountsFor r.operations (outcome (readReply movingReply) apartDesk.host).2 op
          path [['w'], ['e'], ['f']] := by
  have hu : apartDesk.host.files.Unlinked [['w']] := .of_linkCount (by decide) (by decide)
  have ha : plainApplier.Answers := by simp [Applier.Answers, plainApplier]
  obtain ⟨r, after, ho, hops, happlied, -, -, hrecord, -, -, hfiles⟩ :=
    (applyReply_accounts rfl ha hu keepsOutside_apartDesk movingReply).resolve_right
      fun hdeep => hdeep.1.1 rfl
  have hkinds : (plainApplier.carriedOut
      ((Reply.operations movingReply).map fun op => op.map Value.text)
      (outcome (readReply movingReply) apartDesk.host).2).map Operation.kind =
        [.rename, .create] := by
    rw [operations_movingReply]
    decide +kernel
  have hmoved : (outcome (applyReply plainApplier movingReply) apartDesk).2.host.files.fileAt
      [['w'], ['e'], ['f']] = some [0] := by
    decide +kernel
  rw [ho] at hmoved
  refine ⟨r, after, ho, happlied ▸ hkinds, hrecord, hmoved, ?_⟩
  rw [hops]
  refine hfiles _ ⟨by decide, by decide⟩ ?_
  rw [hmoved]
  decide

end Ledger

end ReplyLedger
