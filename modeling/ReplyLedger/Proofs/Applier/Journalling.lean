import ReplyLedger.Proofs.Applier.Outside
import ReplyLedger.Proofs.Applier.Wording

/-!
# The journal of a batch

A batch that comes to its end has added one entry to its journal for every operation, with a line
feed behind it (`Applier.stands_applyAll`), as long as the operations leave the file of the journal
alone (`Applier.Spares`). They do if it is outside a workspace without links
(`Applier.spares_of_keepsFile`). Then every entry can be written, and what breaks off the batch is
only the machine (`Applier.exists_overreach`).
-/

namespace ReplyLedger

open FileSystem Json Text

namespace Applier

variable {a : Applier} {j : Journal} {p : Location} {t : Text} {h : Host}

/-! ## Entries -/

/-- The operations of a batch leave the file of a journal alone, each when it is its turn: it holds
what it held, and can be written to. -/
def Spares (a : Applier) (j : Journal) (p : Location) : List (Operation Value) → Host → Prop
  | [], _ => True
  | op :: ops, h =>
    (∀ held, j.Holds p held h → j.Holds p held (outcome (a.apply op) h).2) ∧
      Spares a j p ops (outcome (a.applyNext {} op) h).2

/-- The entries that a batch adds to its journal, each with the reading of the clock when its operation
has come to a result. -/
def entries (a : Applier) : List (Operation Value) → Host → List Text
  | [], _ => []
  | op :: ops, h =>
    Journal.line (outcome (a.apply op) h).2.journalReading (noteOn op (outcome (a.apply op) h).1) ::
      entries a ops (outcome (a.applyNext {} op) h).2

theorem length_entries (a : Applier) (ops : List (Operation Value)) (h : Host) :
    (a.entries ops h).length = ops.length := by
  induction ops generalizing h with
  | nil => rfl
  | cons op ops ih => rw [entries, List.length_cons, List.length_cons, ih]

/-- The entries are on one line exactly if what the notes show as it is is. -/
theorem oneLine_entries_iff (a : Applier) (ops : List (Operation Text)) (h : Host) :
    (∀ entry ∈ a.entries (ops.map (·.map .text)) h, OneLine entry) ↔
      ∀ x ∈ a.results (ops.map (·.map .text)) h, ∀ t ∈ shown x.1 x.2, OneLine t := by
  induction ops generalizing h with
  | nil => simp [entries, results]
  | cons op ops ih =>
    rw [List.map_cons, entries, results, List.forall_mem_cons, List.forall_mem_cons, ih,
      Journal.oneLine_line_iff, oneLine_noteOn_iff fun f hf => concerns_apply a op h f hf]

/-- What an operation comes to is noted and reported, if its failure ends only itself. -/
theorem outcome_applyNext_noted {op : Operation Value}
    (hends : ∀ f, (outcome (a.apply op) h).1 = .error f → f.endsOperation) :
    outcome (a.applyNext {} op) h =
      outcome (a.note (noteOn op (outcome (a.apply op) h).1) >>= fun _ =>
        pure (.ofResults [(op, (outcome (a.apply op) h).1)])) (outcome (a.apply op) h).2 := by
  rw [outcome_applyNext]
  rcases happly : outcome (a.apply op) h with ⟨f | _, k⟩
  · simp only [if_pos (hends f (by rw [happly]))]
    rfl
  · rfl

/-- If the batch goes on, the failure of an operation has ended only the operation. -/
theorem endsOperation_of_applyNext {op : Operation Value} {r : BatchReport} {k : Host}
    (ho : outcome (a.applyNext {} op) h = (.ok r, k)) (f : Failure)
    (hf : (outcome (a.apply op) h).1 = .error f) : f.endsOperation := by
  rw [outcome_applyNext] at ho
  rcases happly : outcome (a.apply op) h with ⟨f' | _, k'⟩
  · obtain rfl : f' = f := by simpa [happly] using hf
    simp only [happly] at ho
    split at ho
    · assumption
    · simp at ho
  · simp [happly] at hf

/-- The entry about an operation can be written. -/
theorem stands_write {op : Operation Value} (hst : j.Stands p t h)
    (hs : ∀ held, j.Holds p held h → j.Holds p held (outcome (a.apply op) h).2) (note : Text) :
    ∃ k, outcome (j.write note) (outcome (a.apply op) h).2 = (.ok (), k) ∧
      j.Stands p (t ++ (Journal.line (outcome (a.apply op) h).2.journalReading note ++ ['\n'])) k := by
  obtain ⟨held, hh, ht⟩ := hst.holds
  exact Journal.exists_stands_of_write (hs held hh) ht note

/-- One operation of a batch comes to what it comes to by itself, and its entry is written. -/
theorem stands_applyNext (hj : a.journal = some j) (hst : j.Stands p t h) {op : Operation Value}
    (hs : ∀ held, j.Holds p held h → j.Holds p held (outcome (a.apply op) h).2) {r : BatchReport}
    {k : Host} (ho : outcome (a.applyNext {} op) h = (.ok r, k)) :
    r = .ofResults [(op, (outcome (a.apply op) h).1)] ∧
      j.Stands p (t ++ (Journal.line (outcome (a.apply op) h).2.journalReading
        (noteOn op (outcome (a.apply op) h).1) ++ ['\n'])) k := by
  obtain ⟨k', hwrite, hst'⟩ := stands_write hst hs (noteOn op (outcome (a.apply op) h).1)
  rw [outcome_applyNext_noted (endsOperation_of_applyNext ho), note, hj,
    outcome_bind_of_ok hwrite] at ho
  obtain ⟨rfl, rfl⟩ : _ = r ∧ k' = k := by simpa using ho
  exact ⟨rfl, hst'⟩

/-- **A batch writes an entry for every operation**, behind what its journal has held. -/
theorem stands_applyAll (hj : a.journal = some j) {ops : List (Operation Value)}
    (hst : j.Stands p t h) (hs : a.Spares j p ops h) {r : BatchReport} {k : Host}
    (ho : outcome (a.applyAll ops) h = (.ok r, k)) :
    r = .ofResults (a.results ops h) ∧
      j.Stands p (t ++ (a.entries ops h).flatMap (· ++ ['\n'])) k := by
  induction ops generalizing h t r with
  | nil =>
    obtain ⟨rfl, rfl⟩ : ({} : BatchReport) = r ∧ h = k := by simpa [applyAll] using ho
    exact ⟨rfl, by simpa [entries] using hst⟩
  | cons op ops ih =>
    obtain ⟨s, h₁, s', hnext, hrest, rfl⟩ := exists_of_applyAll_cons ho
    obtain ⟨rfl, hst₁⟩ := stands_applyNext hj hst hs.1 hnext
    obtain ⟨rfl, hst'⟩ := ih hst₁ (by simpa only [hnext] using hs.2) hrest
    refine ⟨?_, ?_⟩
    · rw [results, hnext]
      exact (BatchReport.ofResults_append [_] _).symm
    · rw [entries, hnext, List.flatMap_cons, ← List.append_assoc]
      exact hst'

/-! ## A batch that is broken off -/

/-- The operations of the second part of a batch are spared when it is their turn, too. -/
theorem Spares.append {ops ops' : List (Operation Value)} {r : BatchReport} {k : Host}
    (ho : outcome (a.applyAll ops) h = (.ok r, k)) (hs : a.Spares j p (ops ++ ops') h) :
    a.Spares j p ops h ∧ a.Spares j p ops' k := by
  induction ops generalizing h r with
  | nil =>
    obtain ⟨-, rfl⟩ : ({} : BatchReport) = r ∧ h = k := by simpa [applyAll] using ho
    exact ⟨trivial, hs⟩
  | cons op ops ih =>
    obtain ⟨s, h₁, s', hnext, hrest, -⟩ := exists_of_applyAll_cons ho
    have hlater : a.Spares j p (ops ++ ops') (outcome (a.applyNext {} op) h).2 := hs.2
    rw [hnext] at hlater
    obtain ⟨hops, hops'⟩ := ih hrest hlater
    exact ⟨⟨hs.1, by rwa [hnext]⟩, hops'⟩

/-- **Only the machine breaks off a batch whose journal is spared**, if its questions are answered. -/
theorem exists_overreach (hr : ∀ s ∈ a.workspace.root, '/' ∉ s) (hj : a.journal = some j)
    (ha : a.Answers) {ops : List (Operation Text)} (hst : j.Stands p t h)
    (hs : a.Spares j p (ops.map (·.map .text)) h) {f : Failure} {h' : Host}
    (ho : outcome (a.applyAll (ops.map (·.map .text))) h = (.error f, h')) :
    ∃ earlier op later r k, ops = earlier ++ op :: later ∧
      outcome (a.applyAll (earlier.map (·.map .text))) h = (.ok r, k) ∧
      a.Overreaches k (op.map .text) ∧ f = .tooDeep ∧
      outcome (a.apply (op.map .text)) k = (.error .tooDeep, h') := by
  have hall := ho
  obtain ⟨earlier, op, later, r, k, rfl, hearlier, hbreaks, -⟩ := exists_breaksOff ho
  refine ⟨earlier, op, later, r, k, rfl, hearlier, ?_⟩
  rw [List.map_append, List.map_cons] at hs ho
  obtain ⟨hsEarlier, hsOp, -⟩ := hs.append hearlier
  cases hbreaks with
  | question _ hn => exact absurd ha hn
  | machine hdeep _ =>
    refine ⟨overreaches_of_tooDeep hr hdeep, rfl, ?_⟩
    exact outcome_of_tooDeep hearlier hdeep ho
  | @note _ entry _ hj' hw =>
    obtain rfl := Option.some.inj (hj.symm.trans hj')
    obtain ⟨k', hwrite, -⟩ := stands_write (stands_applyAll hj hst hsEarlier hearlier).2 hsOp entry
    rw [hwrite] at hw
    cases hw

/-! ## A journal outside the workspace -/

/-- Without links in the workspace, an operation changes nothing outside it, whatever it comes to. -/
theorem changed_apply (hu : h.files.Unlinked a.workspace.root) (op : Operation Text) :
    h.Changed a.workspace.root (fun _ => True) (outcome (a.apply (op.map .text)) h).2 := by
  have hmeets := meets_apply hu op h rfl
  rcases happly : outcome (a.apply (op.map .text)) h with ⟨f | _, k⟩
  · rw [happly] at hmeets
    exact hmeets.2.changed
  · rw [happly] at hmeets
    exact Host.Changed.mono hmeets fun _ _ => trivial

/-- **Operations leave a journal alone that is kept outside the workspace.** -/
theorem spares_of_keepsFile (hj : a.journal = some j) (ops : List (Operation Text))
    (hu : h.files.Unlinked a.workspace.root) (hk : h.KeepsFile a.workspace.root j.path p) :
    a.Spares j p (ops.map (·.map .text)) h := by
  induction ops generalizing h with
  | nil => trivial
  | cons op ops ih =>
    have hc := changed_apply hu op
    have hk' := hk.confined hc.confined hc.cwd
    constructor
    · rintro held ⟨k, ho, -, hheld⟩
      obtain ⟨d, hd⟩ := hk.reaches.directory
      obtain ⟨d', hd'⟩ := hk'.reaches.directory
      obtain rfl : h = k :=
        (Prod.mk.inj ((Action.outcome_ensureDirectories_present hd).symm.trans ho)).2
      exact ⟨_, Action.outcome_ensureDirectories_present hd', hk'.reaches,
        (fileAt_congr (hc.confined p hk.outside)).trans hheld⟩
    · by_cases hends : ∀ f, (outcome (a.apply (op.map .text)) h).1 = .error f → f.endsOperation
      · rw [outcome_applyNext_noted hends, note, hj, outcome_bind_of_ok (hk'.outcome_write _)]
        exact ih (hk'.unlinked hc.unlinked _) (hk'.put hk' _ _ _)
      · rw [outcome_applyNext_of_not_endsOperation hends]
        exact ih hc.unlinked hk'

end Applier

end ReplyLedger
