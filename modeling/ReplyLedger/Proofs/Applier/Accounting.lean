import ReplyLedger.Proofs.Applier.Transcript

/-!
# The account of a batch

The report of a batch without a journal is made of what every operation has come to when it was its
turn (`BatchReport.ofResults`, `Applier.results`): an operation fails in the batch exactly if it fails
on the host that those before it have left, and what it changes it changes there
(`Applier.Accounts`). If the answers do not depend on what has been shown, so that the notes taken in
between make no difference, the batch comes to what its operations come to one by one
(`Applier.oneByOne`).

If its questions are answered, the batch comes to its end, whatever it is asked to do and wherever,
unless it comes to an operation that overreaches and is given up by the machine
(`Applier.accounted_applyAll`). Then there is no report, though the operations before that one have
been carried out (`Applier.unreported_emptyWorkspace`).
-/

namespace ReplyLedger

open Json

/-! ## Reports -/

/-- The report on operations, by what each of them has come to. -/
def BatchReport.ofResults (results : List (Operation Value × Except Failure Unit)) :
    BatchReport where
  applied := results.filterMap fun x =>
    match x.2 with
    | .ok _ => some x.1
    | .error _ => none
  failures := results.filterMap fun x =>
    match x.2 with
    | .ok _ => none
    | .error f => some ⟨x.1, f.message⟩

namespace BatchReport

variable {results : List (Operation Value × Except Failure Unit)}

theorem ofResults_append (results results' : List (Operation Value × Except Failure Unit)) :
    ofResults (results ++ results') = ofResults results ++ ofResults results' :=
  congrArg₂ BatchReport.mk List.filterMap_append List.filterMap_append

/-- Every operation is reported, as applied or as failed. -/
theorem length_ofResults :
    (ofResults results).applied.length + (ofResults results).failures.length = results.length := by
  induction results with
  | nil => rfl
  | cons x results ih =>
    obtain ⟨op, result⟩ := x
    rw [List.length_cons, ← ih]
    cases result with
    | ok => exact Nat.add_right_comm _ 1 _
    | error f => rfl

end BatchReport

namespace Applier

open ReplyLedger.Action Workspace

variable {a : Applier} {h h' k h₁ h₂ : Host} {op : Operation Value} {ops : List (Operation Value)}
variable {r : BatchReport}

/-! ## What the operations of a batch come to -/

/-- What the operations of a batch come to, each when it is its turn. -/
def results (a : Applier) :
    List (Operation Value) → Host → List (Operation Value × Except Failure Unit)
  | [], _ => []
  | op :: ops, h =>
    (op, (outcome (a.apply op) h).1) :: results a ops (outcome (a.applyNext {} op) h).2

/-- What operations come to one by one, each on the host that the one before it has left, whether it
was carried out or failed, and the host that the last one leaves. -/
def oneByOne (a : Applier) :
    List (Operation Value) → Host → List (Operation Value × Except Failure Unit) × Host
  | [], h => ([], h)
  | op :: ops, h =>
    let rest := oneByOne a ops (outcome (a.apply op) h).2
    ((op, (outcome (a.apply op) h).1) :: rest.1, rest.2)

theorem map_fst_results (a : Applier) (ops : List (Operation Value)) (h : Host) :
    (a.results ops h).map Prod.fst = ops := by
  induction ops generalizing h with
  | nil => rfl
  | cons op ops ih => rw [results, List.map_cons, ih]

/-- Without a journal, a note changes nothing but what is shown. -/
theorem outcome_note_bind (hj : a.journal = none) (entry : Text) (r : BatchReport) (h : Host) :
    ∃ k, outcome (a.note entry >>= fun _ => pure r) h = (.ok r, k) ∧ h.Resembles .unshown k := by
  refine ⟨{ h with console := h.console.emit (.message .debug entry) }, ?_, _, rfl, rfl⟩
  rw [note, hj]
  rfl

/-- An operation of a batch that goes on has come to what it comes to by itself. -/
theorem ofResults_of_applyNext (hj : a.journal = none)
    (ho : outcome (a.applyNext {} op) h = (.ok r, k)) :
    r = .ofResults [(op, (outcome (a.apply op) h).1)] ∧
      (outcome (a.apply op) h).2.Resembles .unshown k := by
  rw [outcome_applyNext] at ho
  rcases happly : outcome (a.apply op) h with ⟨f | _, h'⟩
  · simp only [happly] at ho
    split at ho
    · obtain ⟨k', hnote, hk⟩ := outcome_note_bind hj _ _ h'
      obtain ⟨rfl, rfl⟩ : _ = r ∧ k' = k := by simpa using hnote.symm.trans ho
      exact ⟨rfl, hk⟩
    · simp at ho
  · simp only [happly] at ho
    obtain ⟨k', hnote, hk⟩ := outcome_note_bind hj _ _ h'
    obtain ⟨rfl, rfl⟩ : _ = r ∧ k' = k := by simpa using hnote.symm.trans ho
    exact ⟨rfl, hk⟩

/-- A batch that comes to its end has begun with an operation and gone on. -/
theorem exists_of_applyAll_cons (ho : outcome (a.applyAll (op :: ops)) h = (.ok r, k)) :
    ∃ s h₁ s', outcome (a.applyNext {} op) h = (.ok s, h₁) ∧
      outcome (a.applyAll ops) h₁ = (.ok s', k) ∧ r = s ++ s' := by
  rw [applyAll_cons] at ho
  obtain ⟨s, h₁, hnext, hrest⟩ := exists_of_outcome_bind ho
  rw [outcome_map] at hrest
  rcases hall : outcome (a.applyAll ops) h₁ with ⟨f | s', k'⟩
  · simp [hall, Except.map] at hrest
  · obtain ⟨rfl, rfl⟩ : s ++ s' = r ∧ k' = k := by simpa [hall, Except.map] using hrest
    exact ⟨s, h₁, s', hnext, hall, rfl⟩

/-- **A batch that comes to its end reports what its operations have come to.** -/
theorem ofResults_of_applyAll (hj : a.journal = none)
    (ho : outcome (a.applyAll ops) h = (.ok r, k)) : r = .ofResults (a.results ops h) := by
  induction ops generalizing h r with
  | nil =>
    obtain ⟨rfl, -⟩ : ({} : BatchReport) = r ∧ h = k := by simpa [applyAll] using ho
    rfl
  | cons op ops ih =>
    obtain ⟨s, h₁, s', hnext, hrest, rfl⟩ := exists_of_applyAll_cons ho
    rw [results, hnext, (ofResults_of_applyNext hj hnext).1, ih hrest]
    exact (BatchReport.ofResults_append [_] _).symm

/-- What the operations of two batches in a row come to. -/
theorem results_append (ho : outcome (a.applyAll ops) h = (.ok r, k))
    (ops' : List (Operation Value)) :
    a.results (ops ++ ops') h = a.results ops h ++ a.results ops' k := by
  induction ops generalizing h r with
  | nil =>
    obtain ⟨-, rfl⟩ : ({} : BatchReport) = r ∧ h = k := by simpa [applyAll] using ho
    rfl
  | cons op ops ih =>
    obtain ⟨s, h₁, s', hnext, hrest, -⟩ := exists_of_applyAll_cons ho
    rw [List.cons_append, results, results, hnext, ih hrest, List.cons_append]

/-- If the answers do not depend on what has been shown, the notes of a batch make no difference. -/
theorem results_eq_oneByOne (hj : a.journal = none) (hu : a.AnswersUnshown)
    (hh : h₁.Resembles .unshown h₂) (ho : outcome (a.applyAll ops) h₁ = (.ok r, k)) :
    a.results ops h₁ = (a.oneByOne ops h₂).1 ∧ k.Resembles .unshown (a.oneByOne ops h₂).2 := by
  have hv := Console.View.equivalence_unshown
  induction ops generalizing h₁ h₂ r with
  | nil =>
    obtain ⟨-, rfl⟩ : ({} : BatchReport) = r ∧ h₁ = k := by simpa [applyAll] using ho
    exact ⟨rfl, hh⟩
  | cons op ops ih =>
    obtain ⟨s, h', s', hnext, hrest, -⟩ := exists_of_applyAll_cons ho
    obtain ⟨hresult, hleft⟩ := heedless_apply hu.alike op h₁ h₂ hh
    obtain ⟨hresults, hlast⟩ :=
      ih (((ofResults_of_applyNext hj hnext).2.symm hv).trans hv hleft) hrest
    rw [results, oneByOne, hnext, hresults, hresult]
    exact ⟨rfl, hlast⟩

/-! ## The account -/

/-- The account of a batch that comes to its end. Its report is made of what the operations have come
to, in order, so each of them is reported once. An operation fails in the batch exactly if it fails
on the host that the batch of those before it leaves, and it changes the files as it does there. If
the answers do not depend on what has been shown, the results and the files are those of the
operations one by one. -/
structure Accounts (a : Applier) (ops : List (Operation Value)) (h : Host)
    (results : List (Operation Value × Except Failure Unit)) (h' : Host) : Prop where
  report : outcome (a.applyAll ops) h = (.ok (.ofResults results), h')
  operations : results.map Prod.fst = ops
  length : (BatchReport.ofResults results).applied.length +
    (BatchReport.ofResults results).failures.length = ops.length
  turn : ∀ earlier op later, ops = earlier ++ op :: later → ∃ r k,
    outcome (a.applyAll earlier) h = (.ok r, k) ∧
      results[earlier.length]? = some (op, (outcome (a.apply op) k).1) ∧
      (outcome (a.applyAll (earlier ++ [op])) h).2.files = (outcome (a.apply op) k).2.files
  oneByOne : a.AnswersUnshown → results = (a.oneByOne ops h).1 ∧
    h'.files = (a.oneByOne ops h).2.files

/-- A batch that comes to its end has an account. -/
theorem accounts_of_applyAll (hj : a.journal = none)
    (ho : outcome (a.applyAll ops) h = (.ok r, k)) : a.Accounts ops h (a.results ops h) k := by
  have hfst := map_fst_results a ops h
  refine ⟨by rw [← ofResults_of_applyAll hj ho, ho], hfst, ?_, ?_, fun hu => ?_⟩
  · rw [BatchReport.length_ofResults, ← List.length_map Prod.fst, hfst]
  · rintro earlier op later rfl
    rw [applyAll_append] at ho
    obtain ⟨s, h₁, hearlier, hrest⟩ := exists_of_outcome_bind ho
    rw [outcome_map] at hrest
    rcases hlater : outcome (a.applyAll (op :: later)) h₁ with ⟨f | s', h₂⟩
    · simp [hlater, Except.map] at hrest
    obtain ⟨t, h₃, -, hnext, -, -⟩ := exists_of_applyAll_cons hlater
    have hlength : (a.results earlier h).length = earlier.length := by
      rw [← List.length_map Prod.fst, map_fst_results]
    refine ⟨s, h₁, hearlier, ?_, ?_⟩
    · rw [results_append hearlier, List.getElem?_append_right (Nat.le_of_eq hlength), hlength,
        Nat.sub_self]
      rfl
    · rw [applyAll_concat, outcome_bind_of_ok hearlier, applyNext_eq_map, outcome_map, hnext]
      exact (ofResults_of_applyNext hj hnext).2.files.symm
  · obtain ⟨hresults, hlast⟩ :=
      results_eq_oneByOne hj hu (.refl Console.View.equivalence_unshown h) ho
    exact ⟨hresults, hlast.files⟩

/-- The batch is over when the machine gives up an operation. -/
theorem outcome_of_tooDeep {earlier later : List (Operation Value)} {f : Failure}
    (hearlier : outcome (a.applyAll earlier) h = (.ok r, k))
    (hdeep : (outcome (a.apply op) k).1 = .error .tooDeep)
    (ho : outcome (a.applyAll (earlier ++ op :: later)) h = (.error f, h')) :
    outcome (a.apply op) k = (.error .tooDeep, h') := by
  rcases happly : outcome (a.apply op) k with ⟨f | _, k'⟩
  · rw [happly] at hdeep
    obtain rfl : f = .tooDeep := Except.error.inj hdeep
    have hnext : outcome (a.applyNext {} op) k = (.error .tooDeep, k') := by
      rw [outcome_applyNext, happly]
      rfl
    rw [applyAll_append, outcome_bind_of_ok hearlier, outcome_map, applyAll_cons,
      outcome_bind_of_error hnext] at ho
    exact congrArg (Prod.mk _) (Prod.mk.inj ho).2
  · rw [happly] at hdeep
    cases hdeep

/-- **A batch accounts for every operation.** Without a journal, and with questions that are
answered, it comes to its end with an account; or it comes to an operation that overreaches, and the
machine gives that up and with it the batch. The operations before that one have an account then, and
nothing is done after it. -/
theorem accounted_applyAll (hr : ∀ s ∈ a.workspace.root, '/' ∉ s) (hj : a.journal = none)
    (ha : a.Answers) (ops : List (Operation Text)) (h : Host) :
    (∃ results h', a.Accounts (ops.map (·.map .text)) h results h') ∨
      ∃ earlier op later results k h', ops = earlier ++ op :: later ∧
        a.Accounts (earlier.map (·.map .text)) h results k ∧ a.Overreaches k (op.map .text) ∧
        outcome (a.apply (op.map .text)) k = (.error .tooDeep, h') ∧
        outcome (a.applyAll (ops.map (·.map .text))) h = (.error .tooDeep, h') := by
  rcases ho : outcome (a.applyAll (ops.map (·.map .text))) h with ⟨f | r, h'⟩
  swap
  · exact .inl ⟨_, _, accounts_of_applyAll hj ho⟩
  have hall := ho
  obtain ⟨earlier, op, later, r, k, rfl, hearlier, hbreaks, -⟩ := exists_breaksOff ho
  cases hbreaks with
  | question _ hn => exact absurd ha hn
  | note hsome => simp [hj] at hsome
  | machine hdeep _ =>
    refine .inr ⟨earlier, op, later, _, k, h', rfl, accounts_of_applyAll hj hearlier,
      overreaches_of_tooDeep hr hdeep, ?_, hall⟩
    rw [List.map_append, List.map_cons] at ho
    exact outcome_of_tooDeep hearlier hdeep ho

/-- Three operations fail, each for another reason, and the batch goes on to one that does not. -/
theorem accounted_cyclicHost :
    let a : Applier := { workspace := ⟨[['w']]⟩, confirm := some (.always false) }
    let ops : List (Operation Text) :=
      [.rename "d" "d/x/y", .create "d/f" "n", .delete "l", .create "d/x/n" "n"]
    (∀ s ∈ a.workspace.root, '/' ∉ s) ∧ a.journal = none ∧ a.Answers ∧
      ∃ results h', a.Accounts (ops.map (·.map .text)) cyclicHost results h' ∧
        (BatchReport.ofResults results).applied.map (·.kind) = [.create] ∧
        (BatchReport.ofResults results).failures.map (·.operation.kind) =
          [.rename, .create, .delete] ∧
        h'.files = (a.oneByOne (ops.map (·.map .text)) cyclicHost).2.files := by
  intro a ops
  have hr : ∀ s ∈ a.workspace.root, '/' ∉ s := by decide
  have ha : a.Answers := by
    rintro confirm ⟨⟩ question console
    exact Option.some_ne_none _
  have hu : a.AnswersUnshown := by
    rintro confirm ⟨⟩ question c₁ c₂ hc
    have hasked := congrArg Console.asked hc
    have hinput := congrArg Console.input hc
    exact ⟨rfl, congrArg₂ (Console.mk []) (congrArg (· ++ [question]) hasked) hinput⟩
  rcases accounted_applyAll hr rfl ha ops cyclicHost with
    ⟨results, h', hall⟩ | ⟨_, _, _, _, _, _, -, -, hover, -⟩
  · obtain ⟨rfl, hfiles⟩ := hall.oneByOne hu
    exact ⟨hr, rfl, ha, _, h', hall, by decide +kernel, by decide +kernel, hfiles⟩
  · exact absurd rfl hover.nesting_ne_none

/-! ## A batch that is given up -/

/-- A workspace `/w` with nothing in it. -/
def emptyWorkspace : Host := .ofFiles (FileSystem.empty.put [['w']] .directory)

/-- More directories are missing above a target than calls can be nested. The batch ends without a
report, with the file made that was created before, and without the one that was to be created
afterwards. -/
theorem unreported_emptyWorkspace :
    let a : Applier := { workspace := ⟨[['w']]⟩, nesting := some 3 }
    let ops : List (Operation Value) := [.create (.text "e") (.text "n"),
      .create (.text "a/b/c/d/e/f") (.text "n"), .create (.text "g") (.text "n")]
    let after := outcome (a.applyAll ops) emptyWorkspace
    a.journal = none ∧ a.confirm = none ∧ after.1.toBool = false ∧
      after.2.files.fileAt [['w'], ['e']] = some (Utf8.encode "n") ∧
      after.2.files.entryAt [['w'], ['g']] = none := by
  intro a ops after
  exact ⟨rfl, rfl, by decide +kernel, by decide +kernel, by decide +kernel⟩

end Applier

end ReplyLedger
