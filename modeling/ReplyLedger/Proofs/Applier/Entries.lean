import ReplyLedger.Proofs.Applier.Journalling
import ReplyLedger.Proofs.Reply.WellFormed

/-!
# The lines of a journal

The entries of a batch are read back by lines, and a note shows the paths of its operation as they
are. So the lines of a journal are its entries exactly if nothing that the notes show as it is holds
a line end (`Applier.Journals`). A header stands on one line, so the paths of a reply hold no line
feed, but they may hold one of the other characters that end lines, and then an entry can be forged
(`Applier.forged_forgingReply`).

A batch that comes to its end has one entry for every operation, and one that the machine breaks off
has one for every operation before the one that overreaches (`Applier.tail_applyAll`).
-/

namespace ReplyLedger

open Json Text

namespace Reply

theorem WellFormed.isSoundPath {op : Operation Text} (hw : WellFormed op) {path : Text}
    (hp : path ∈ op.paths) : IsSoundPath path := by
  cases op with
  | create file content => exact List.mem_singleton.1 hp ▸ hw.1
  | delete file => exact List.mem_singleton.1 hp ▸ hw
  | rename source target =>
    rcases List.mem_cons.1 hp with rfl | hp
    · exact hw.1
    · exact List.mem_singleton.1 hp ▸ hw.2
  | edit file search replacement => exact List.mem_singleton.1 hp ▸ hw.1
  | overwrite file content => exact List.mem_singleton.1 hp ▸ hw.1

/-- The paths of a reply hold no line feed. -/
theorem not_mem_lineFeed {reply : Text} {op : Operation Text} (hop : op ∈ operations reply)
    {path : Text} (hp : path ∈ op.paths) : '\n' ∉ path := by
  obtain ⟨finding, hf, hop⟩ := List.mem_filterMap.1 hop
  exact ((wellFormed_of_findingsFrom 0 (payload reply) finding hf op hop).isSoundPath hp).oneLine

end Reply

/-- **The lines of texts one below the other are the texts exactly if each of them is on one line**,
when as many lines are asked for or more. -/
theorem Journal.Stands.tail_eq_iff {j : Journal} {p : Location} {h : Host} {entries : List Text}
    (hst : j.Stands p (entries.flatMap (· ++ ['\n'])) h) :
    (∀ n : Int, entries.length ≤ n → outcome (j.tail n) h = (.ok entries, h)) ↔
      ∀ entry ∈ entries, OneLine entry := by
  have htail := hst.tail
  rw [lines_flatMap] at htail
  rw [← flatMap_lines_eq_iff]
  constructor
  · -- all lines are read when as many are asked for
    intro hall
    have hn := htail (max entries.length (entries.flatMap fun e => lines (e ++ ['\n'])).length)
    rw [hall _ (Int.le_max_left _ _), lastOf_of_le (Int.le_max_right _ _)] at hn
    exact (Except.ok.inj (Prod.mk.inj hn).1).symm
  · intro heq n hn
    rw [htail, heq, lastOf_of_le hn]

namespace Applier

variable {a : Applier} {j : Journal} {p : Location} {h : Host}

/-- What a batch comes to for an operation: a result that is about its paths. -/
theorem exists_of_mem_results {ops : List (Operation Text)}
    {x : Operation Value × Except Failure Unit} (hx : x ∈ a.results (ops.map (·.map .text)) h) :
    ∃ op ∈ ops, x.1 = op.map .text ∧ ∀ f, x.2 = .error f → f.Concerns op.paths := by
  induction ops generalizing h with
  | nil => cases hx
  | cons op ops ih =>
    rcases List.mem_cons.1 hx with rfl | hx
    · exact ⟨op, List.mem_cons_self, rfl, fun f hf => concerns_apply a op h f hf⟩
    · obtain ⟨op', hop', hx'⟩ := ih hx
      exact ⟨op', List.mem_cons_of_mem op hop', hx'⟩

/-- A note shows paths of its operation, unless a directory is moved below itself. -/
theorem shown_subset {op : Operation Text} {result : Except Failure Unit}
    (hf : ∀ f, result = .error f → f.Concerns op.paths)
    (hn : ∀ source target, result ≠ .error (.intoItself source target)) :
    shown (op.map .text) result ⊆ op.paths := by
  cases result with
  | ok _ =>
    rw [shown, Operation.paths_map, List.map_map]
    exact fun t ht => by simpa [Value.plain] using ht
  | error f => exact Failure.shown_subset (hf f rfl) fun _ _ h => hn _ _ (congrArg _ h)

/-- The journal of a batch that has come to its end, when it was new. Its lines are the entries about
the operations, in order, exactly if nothing that the notes show as it is holds a line end. So they
are if no path of the operations holds a character that ends lines, and no directory was to be moved
below itself. -/
structure Journals (a : Applier) (j : Journal) (ops : List (Operation Text)) (h h' : Host) :
    Prop where
  report : outcome (a.applyAll (ops.map (·.map .text))) h =
    (.ok (.ofResults (a.results (ops.map (·.map .text)) h)), h')
  lines : (∀ n : Int, ops.length ≤ n →
      outcome (j.tail n) h' = (.ok (a.entries (ops.map (·.map .text)) h), h')) ↔
    ∀ x ∈ a.results (ops.map (·.map .text)) h, ∀ t ∈ shown x.1 x.2, OneLine t
  plain : (∀ op ∈ ops, ∀ path ∈ op.paths, OneLine path) →
    (∀ x ∈ a.results (ops.map (·.map .text)) h, ∀ source target,
      x.2 ≠ .error (.intoItself source target)) →
    ∀ n : Int, ops.length ≤ n →
      outcome (j.tail n) h' = (.ok (a.entries (ops.map (·.map .text)) h), h')

theorem journals_of_applyAll (hj : a.journal = some j) (hn : j.IsNew p h)
    {ops : List (Operation Text)} (hs : a.Spares j p (ops.map (·.map .text)) h) {r : BatchReport}
    {k : Host} (ho : outcome (a.applyAll (ops.map (·.map .text))) h = (.ok r, k)) :
    a.Journals j ops h k := by
  obtain ⟨rfl, hst⟩ := stands_applyAll hj hn.stands hs ho
  have hiff := hst.tail_eq_iff
  rw [length_entries, oneLine_entries_iff, List.length_map] at hiff
  refine ⟨ho, hiff, fun hpaths hmoves => hiff.2 fun x hx t ht => ?_⟩
  obtain ⟨op, hop, hfst, hf⟩ := exists_of_mem_results hx
  rw [hfst] at ht
  exact hpaths op hop t (shown_subset hf (hmoves x hx) ht)

/-- **The journal of a batch has one line for every operation, if no line end is shown.** Whatever
the reply is, if the operations leave the file of the journal alone and questions are answered, the
batch comes to its end, and its journal, which was new, has the entries about its operations; or it
comes to an operation that overreaches, and the machine breaks it off. The journal has the entries
about the operations before that one then. No path of the reply holds a line feed. -/
theorem tail_applyAll (hr : ∀ s ∈ a.workspace.root, '/' ∉ s) (hj : a.journal = some j)
    (ha : a.Answers) (hn : j.IsNew p h) (reply : Text)
    (hs : a.Spares j p ((Reply.operations reply).map (·.map .text)) h) :
    (∀ op ∈ Reply.operations reply, ∀ path ∈ op.paths, '\n' ∉ path) ∧
      ((∃ h', a.Journals j (Reply.operations reply) h h') ∨
        ∃ earlier op later k h', Reply.operations reply = earlier ++ op :: later ∧
          a.Journals j earlier h k ∧ a.Overreaches k (op.map .text) ∧
          outcome (a.apply (op.map .text)) k = (.error .tooDeep, h') ∧
          outcome (a.applyAll ((Reply.operations reply).map (·.map .text))) h =
            (.error .tooDeep, h') ∧
          ∀ held, j.Holds p held k → j.Holds p held h') := by
  refine ⟨fun op hop path hpath => Reply.not_mem_lineFeed hop hpath, ?_⟩
  rcases ho : outcome (a.applyAll ((Reply.operations reply).map (·.map .text))) h with ⟨f | r, h'⟩
  · obtain ⟨earlier, op, later, r, k, hops, hearlier, hover, rfl, happly⟩ :=
      exists_overreach hr hj ha hn.stands hs ho
    rw [hops, List.map_append, List.map_cons] at hs
    obtain ⟨hsEarlier, hsOp, -⟩ := hs.append hearlier
    rw [happly] at hsOp
    exact .inr ⟨earlier, op, later, k, h', hops, journals_of_applyAll hj hn hsEarlier hearlier,
      hover, happly, ho, hsOp⟩
  · exact .inl ⟨h', journals_of_applyAll hj hn hs ho⟩

/-! ## Entries that are forged -/

/-- A workspace `/w` with a file, and a directory `/j` beside it. A year passes between
the first entry and the second one. -/
def besideHost : Host :=
  { Host.ofFiles (((FileSystem.empty.put [['w']] .directory).put [['w'], ['f']] (.file [])).put
      [['j']] .directory) with
    journalClock := [.newYear 2023 (by decide)] }

/-- A journal in the directory beside the workspace. -/
def besideJournal : Journal := ⟨(FilePath.ofNames [['j']]).child "log"⟩

/-- Carries out operations in the workspace, and notes them beside it. -/
def notingApplier : Applier := { workspace := ⟨[['w']]⟩, journal := some besideJournal }

theorem answers_notingApplier : notingApplier.Answers := fun _ h => by cases h

theorem unlinked_besideHost : besideHost.files.Unlinked [['w']] :=
  .of_linkCount (by decide) (by decide)

theorem keepsFile_besideHost :
    besideHost.KeepsFile [['w']] besideJournal.path [['j'], "log"] :=
  .of_names (d := [['j']]) (by decide) (by decide) (fun hb => absurd hb.1 (by decide)) (by decide)
    fun e he => by
      have hvacant : besideHost.files.entryAt [['j'], "log"] = none := by decide
      cases hvacant.symm.trans he

theorem isNew_besideHost : besideJournal.IsNew [['j'], "log"] besideHost := by
  obtain ⟨d, hd⟩ := keepsFile_besideHost.reaches.directory
  exact ⟨⟨_, Action.outcome_ensureDirectories_present hd, keepsFile_besideHost.reaches, by decide⟩,
    rfl⟩

/-- One file is removed, and another one is not there. -/
def deletingReply : Text := "<<<DELETE: f>>><<<END>>><<<DELETE: x>>><<<END>>>".toList

/-- Both are noted, on one line each. -/
theorem tail_applyAll_deletingReply :
    let ops := (Reply.operations deletingReply).map (·.map Value.text)
    let entries : List Text := ["[2023-01-01T00:00:00] ✓ delete: f",
      "[2024-01-01T00:00:00] ✗ delete: File x does not exist"]
    (∀ s ∈ notingApplier.workspace.root, '/' ∉ s) ∧ notingApplier.Answers ∧
      besideJournal.IsNew [['j'], "log"] besideHost ∧
      notingApplier.Spares besideJournal [['j'], "log"] ops besideHost ∧
      ∃ h', outcome (notingApplier.applyAll ops) besideHost =
          (.ok (.ofResults (notingApplier.results ops besideHost)), h') ∧
        outcome (besideJournal.tail 2) h' = (.ok entries, h') := by
  intro ops entries
  have hr : ∀ s ∈ notingApplier.workspace.root, '/' ∉ s := by decide
  have hs : notingApplier.Spares besideJournal [['j'], "log"] ops besideHost :=
    spares_of_keepsFile rfl _ unlinked_besideHost keepsFile_besideHost
  refine ⟨hr, answers_notingApplier, isNew_besideHost, hs, ?_⟩
  obtain ⟨-, ⟨h', hjournals⟩ | ⟨_, _, _, _, _, -, -, hover, -⟩⟩ :=
    tail_applyAll hr rfl answers_notingApplier isNew_besideHost deletingReply hs
  · have hentries : notingApplier.entries ops besideHost = entries := by decide +kernel
    refine ⟨h', hjournals.report, ?_⟩
    rw [← hentries]
    exact hjournals.lines.2 (by decide +kernel) 2 (by decide +kernel)
  · exact absurd rfl hover.nesting_ne_none

/-- A file is made, whose name holds a next-line character and what looks like an entry. -/
def forgingReply : Text :=
  "<<<CREATE: a\u0085[2024-01-02T00:00:00] ✓ delete: b>>><<<END>>>".toList

/-- **An entry can be forged.** One operation is carried out, and the journal, which was new and
which it has left alone, has two lines. The second one says that a file has been removed. -/
theorem forged_forgingReply :
    let ops := (Reply.operations forgingReply).map (·.map Value.text)
    let lines : List Text :=
      ["[2023-01-01T00:00:00] ✓ create: a", "[2024-01-02T00:00:00] ✓ delete: b"]
    ops.length = 1 ∧ besideJournal.IsNew [['j'], "log"] besideHost ∧
      notingApplier.Spares besideJournal [['j'], "log"] ops besideHost ∧
      (outcome (notingApplier.applyAll ops >>= fun _ => besideJournal.tail 2) besideHost).1.toOption =
        some lines := by
  intro ops lines
  refine ⟨by decide +kernel, isNew_besideHost, ?_, by decide +kernel⟩
  exact spares_of_keepsFile rfl _ unlinked_besideHost keepsFile_besideHost

end Applier

end ReplyLedger
