import ReplyLedger.Proofs.Applier.Effects

/-!
# Batches

A batch keeps nothing from one operation to the next but the report, and what is added to the report
does not depend on what it holds. So the report of two batches in a row is that of the first with
that of the second behind it (`applyAll_append`), and a batch that comes to its end reports exactly
the operations that it has carried out (`applied_eq_carriedOut`).

In a workspace without links, a batch without a journal whose questions are answered comes to its
end, unless the machine cannot nest calls as deep as it takes (`IsTooDeep`), and every regular file
that it has changed is accounted for by an operation that it reports as applied (`changed_applyAll`).
-/

namespace ReplyLedger

open Json

namespace BatchReport

/-- Two reports put together. -/
def append (r s : BatchReport) : BatchReport := ⟨r.applied ++ s.applied, r.failures ++ s.failures⟩

instance : Append BatchReport := ⟨append⟩

@[simp] theorem applied_append (r s : BatchReport) : (r ++ s).applied = r.applied ++ s.applied := rfl

@[simp] theorem append_empty (r : BatchReport) : r ++ ({} : BatchReport) = r := by
  cases r
  exact congrArg₂ BatchReport.mk (List.append_nil _) (List.append_nil _)

theorem append_assoc (r s t : BatchReport) : r ++ s ++ t = r ++ (s ++ t) :=
  congrArg₂ BatchReport.mk (List.append_assoc ..) (List.append_assoc ..)

end BatchReport

namespace Applier

open ReplyLedger.Action Workspace

variable {a : Applier} {h h' : Host} {r : BatchReport} {op : Operation Value}
variable {ops : List (Operation Value)}

/-! ## Reports -/

/-- One operation of a batch: it is carried out, or given up for a failure that ends it only, and
then it is noted what has become of it. -/
theorem outcome_applyNext (a : Applier) (r : BatchReport) (op : Operation Value) (h : Host) :
    outcome (a.applyNext r op) h =
      match outcome (a.apply op) h with
      | (.ok _, h') =>
        outcome (a.note ("✓ " ++ op.kind.word ++ ": " ++ op.label Value.plain) >>= fun _ =>
          pure { r with applied := r.applied ++ [op] }) h'
      | (.error f, h') =>
        if f.endsOperation then
          outcome (a.note ("✗ " ++ op.kind.word ++ ": " ++ f.message) >>= fun _ =>
            pure { r with failures := r.failures ++ [⟨op, f.message⟩] }) h'
        else (.error f, h') := by
  rw [applyNext, outcome_bind, outcome_rescue, seqRight_eq_bind, outcome_bind]
  rcases outcome (a.apply op) h with ⟨f | _, h'⟩
  · dsimp only
    cases f.endsOperation <;> rfl
  · rfl

/-- A failure that does not end only the operation leaves the batch. -/
theorem outcome_applyNext_of_not_endsOperation
    (hf : ¬ ∀ f, (outcome (a.apply op) h).1 = .error f → f.endsOperation) :
    (outcome (a.applyNext r op) h).2 = (outcome (a.apply op) h).2 := by
  rw [outcome_applyNext]
  rcases happly : outcome (a.apply op) h with ⟨f | _, k⟩
  · have hends : f.endsOperation = false := by simpa [happly] using hf
    simp only [hends]
    rfl
  · simp [happly] at hf

/-- What an operation adds to a report does not depend on the report. -/
theorem applyNext_eq_map (a : Applier) (r : BatchReport) (op : Operation Value) :
    a.applyNext r op = (r ++ ·) <$> a.applyNext {} op := by
  unfold applyNext
  rw [map_bind]
  refine bind_congr fun failure => ?_
  cases failure with
  | none =>
    simp only [map_bind, map_pure]
    refine bind_congr fun _ => congrArg pure ?_
    exact congrArg₂ BatchReport.mk rfl (List.append_nil r.failures).symm
  | some f =>
    simp only [map_bind, map_pure]
    refine bind_congr fun _ => congrArg pure ?_
    exact congrArg₂ BatchReport.mk (List.append_nil r.applied).symm rfl

theorem foldlM_applyNext (a : Applier) (ops : List (Operation Value)) (r : BatchReport) :
    ops.foldlM a.applyNext r = (r ++ ·) <$> a.applyAll ops := by
  induction ops using List.reverseRecOn with
  | nil => simp [applyAll]
  | append_singleton ops op ih =>
    rw [applyAll_concat, List.foldlM_append, ih, map_bind, bind_map_left]
    refine bind_congr fun s => ?_
    rw [List.foldlM_cons, applyNext_eq_map a (r ++ s), applyNext_eq_map a s]
    simp [BatchReport.append_assoc]

/-- **Two batches in a row are one batch**, and the reports are put together. -/
theorem applyAll_append (a : Applier) (ops ops' : List (Operation Value)) :
    a.applyAll (ops ++ ops') =
      a.applyAll ops >>= fun r => (r ++ ·) <$> a.applyAll ops' := by
  rw [applyAll, List.foldlM_append]
  exact bind_congr fun r => foldlM_applyNext a ops' r

theorem applyAll_cons (a : Applier) (op : Operation Value) (ops : List (Operation Value)) :
    a.applyAll (op :: ops) = a.applyNext {} op >>= fun r => (r ++ ·) <$> a.applyAll ops := by
  rw [applyAll, List.foldlM_cons]
  exact bind_congr fun r => foldlM_applyNext a ops r

/-! ## What is carried out -/

/-- Whether an operation is carried out on a host. -/
def isCarriedOut (a : Applier) (op : Operation Value) (h : Host) : Bool :=
  match outcome (a.apply op) h with
  | (.ok _, _) => true
  | (.error _, _) => false

/-- The operations of a batch that are carried out. It is broken off by a failure that does not end
only one operation, and by a note that cannot be written. -/
def carriedOut (a : Applier) : List (Operation Value) → Host → List (Operation Value)
  | [], _ => []
  | op :: ops, h =>
    (if a.isCarriedOut op h then [op] else []) ++
      match outcome (a.applyNext {} op) h with
      | (.ok _, h') => carriedOut a ops h'
      | (.error _, _) => []

/-- An operation is reported as applied if it has been carried out. -/
theorem applied_of_applyNext (ho : outcome (a.applyNext {} op) h = (.ok r, h')) :
    r.applied = if a.isCarriedOut op h then [op] else [] := by
  rw [outcome_applyNext] at ho
  rw [isCarriedOut]
  rcases happly : outcome (a.apply op) h with ⟨f | _, h₁⟩
  · simp only [happly] at ho
    split at ho
    · rw [outcome_bind] at ho
      generalize outcome (a.note _) h₁ = noted at ho
      rcases noted with ⟨_ | _, h₂⟩
      · simp at ho
      · obtain ⟨rfl, -⟩ : _ = r ∧ h₂ = h' := by simpa using ho
        rfl
    · simp at ho
  · simp only [happly] at ho
    rw [outcome_bind] at ho
    generalize outcome (a.note _) h₁ = noted at ho
    rcases noted with ⟨_ | _, h₂⟩
    · simp at ho
    · obtain ⟨rfl, -⟩ : _ = r ∧ h₂ = h' := by simpa using ho
      rfl

/-- **A batch that comes to its end reports exactly the operations that it has carried out.** -/
theorem applied_eq_carriedOut (ho : outcome (a.applyAll ops) h = (.ok r, h')) :
    r.applied = a.carriedOut ops h := by
  induction ops generalizing h r with
  | nil =>
    simp only [applyAll, List.foldlM_nil, outcome_pure, Prod.mk.injEq, Except.ok.injEq] at ho
    rw [← ho.1]
    rfl
  | cons op ops ih =>
    rw [applyAll_cons, outcome_bind] at ho
    rw [carriedOut]
    rcases hnext : outcome (a.applyNext {} op) h with ⟨f | s, h₁⟩
    · simp [hnext] at ho
    · rw [hnext] at ho
      dsimp only at ho
      rw [outcome_map] at ho
      rcases hrest : outcome (a.applyAll ops) h₁ with ⟨f | s', h₂⟩
      · simp [hrest, Except.map] at ho
      · obtain ⟨rfl, rfl⟩ : s ++ s' = r ∧ h₂ = h' := by simpa [hrest, Except.map] using ho
        rw [BatchReport.applied_append, applied_of_applyNext hnext, ih hrest]

/-! ## The account of a batch -/

/-- An operation of a batch accounts for a location by one of its paths: the path stands for it, or
for one above it, if the operation moved a directory when it was its turn. -/
def AccountsFor (a : Applier) (ops : List (Operation Value)) (h : Host) (op : Operation Value)
    (path : Text) (q : Location) : Prop :=
  ∃ p, a.workspace.Locates h path p ∧
    (q = p ∨ p <+: q ∧ ∃ earlier later, ops = earlier ++ op :: later ∧
      a.workspace.MovesDirectory (outcome (a.applyAll earlier) h).2 op)

/-- An operation that is reported as applied accounts for a location. -/
def Accounted (a : Applier) (ops : List (Operation Value)) (h : Host) (r : BatchReport)
    (q : Location) : Prop :=
  ∃ op ∈ r.applied, ∃ path, .text path ∈ op.paths ∧ a.AccountsFor ops h op path q

/-- A batch is broken off by a machine that cannot nest calls as deep as it takes. -/
def IsTooDeep (a : Applier) (ops : List (Operation Value)) (h : Host) : Prop :=
  a.nesting ≠ none ∧ (outcome (a.applyAll ops) h).1 = .error .tooDeep

/-- What is too deep stays so, whatever comes after it. -/
theorem IsTooDeep.append (hn : a.IsTooDeep ops h) (ops' : List (Operation Value)) :
    a.IsTooDeep (ops ++ ops') h := by
  refine ⟨hn.1, ?_⟩
  rw [applyAll_append, outcome_bind]
  rcases ho : outcome (a.applyAll ops) h with ⟨f | r, k⟩
  · rw [← hn.2, ho]
  · exact absurd (hn.2.symm.trans (congrArg Prod.fst ho)) (by simp)

/-- What the first operation finds too deep, the batch does. -/
theorem IsTooDeep.first (hd : a.nesting ≠ none)
    (ho : (outcome (a.applyNext {} op) h).1 = .error .tooDeep) : a.IsTooDeep (op :: ops) h := by
  refine ⟨hd, ?_⟩
  rw [applyAll_cons, outcome_bind]
  rcases hnext : outcome (a.applyNext {} op) h with ⟨f | r, k⟩
  · rw [← ho, hnext]
  · simp [hnext] at ho

/-- What is too deep behind operations is too deep with them. -/
theorem IsTooDeep.behind {ops' : List (Operation Value)}
    (ho : outcome (a.applyAll ops) h = (.ok r, h')) (hn : a.IsTooDeep ops' h') :
    a.IsTooDeep (ops ++ ops') h := by
  refine ⟨hn.1, ?_⟩
  rw [applyAll_append, outcome_bind_of_ok ho, outcome_map, hn.2]
  rfl

theorem IsTooDeep.later (ho : outcome (a.applyNext {} op) h = (.ok r, h'))
    (hn : a.IsTooDeep ops h') : a.IsTooDeep (op :: ops) h := by
  have hone : outcome (a.applyAll [op]) h = (.ok r, h') := by
    rw [applyAll, List.foldlM_cons, outcome_bind_of_ok ho]
    rfl
  exact hn.behind hone

/-- An operation of a batch without a journal is carried out and reported, or given up, or it is too
deep. -/
theorem outcome_applyNext_cases (hj : a.journal = none) (ha : a.Answers)
    (hu : h.files.Unlinked a.workspace.root) (op : Operation Text) :
    (∃ r h', outcome (a.applyNext {} (op.map .text)) h = (.ok r, h') ∧
      (r.applied = [op.map .text] ∧
          h.Changed a.workspace.root (a.workspace.Covers h (op.map .text)) h' ∨
        r.applied = [] ∧ h.Made a.workspace.root h')) ∨
      a.nesting ≠ none ∧ (outcome (a.applyNext {} (op.map .text)) h).1 = .error .tooDeep := by
  have hnote (entry : Text) (h : Host) : outcome (a.note entry) h =
      (.ok (), { h with console := h.console.emit (.message .debug entry) }) := by
    rw [note, hj]
    rfl
  have hmeets := meets_apply hu op h rfl
  rw [outcome_applyNext]
  rcases happly : outcome (a.apply (op.map .text)) h with ⟨f | _, h₁⟩
  · rw [happly] at hmeets
    obtain ⟨hends | ⟨-, hn⟩ | ⟨rfl, hd⟩, hmade⟩ := hmeets
    · simp only [hends, if_true]
      rw [outcome_bind_of_ok (hnote _ h₁)]
      exact .inl ⟨_, _, rfl, .inr ⟨rfl, hmade.console _⟩⟩
    · exact absurd ha hn
    · exact .inr ⟨hd, rfl⟩
  · rw [happly] at hmeets
    simp only
    rw [outcome_bind_of_ok (hnote _ h₁)]
    exact .inl ⟨_, _, rfl, .inl ⟨rfl, Host.Changed.console hmeets _⟩⟩

theorem locates_of_changed {T : Location → Prop} (hu : h.files.Unlinked a.workspace.root)
    (hc : h.Changed a.workspace.root T h') {path : Text} {p : Location}
    (hl : a.workspace.Locates h' path p) : a.workspace.Locates h path p := by
  rw [locates_iff] at hl ⊢
  exact locationOf_of_confined hc.unlinked (fun q hq => (hc.confined q hq).symm) hu hl

/-- What was accounted for before one more operation is so after it. -/
theorem Accounted.concat {q : Location} (hq : a.Accounted ops h r q) (op : Operation Value)
    (s : BatchReport) : a.Accounted (ops ++ [op]) h (r ++ s) q := by
  obtain ⟨op', hop', path, hpath, p, hl, hq⟩ := hq
  refine ⟨op', List.mem_append_left _ hop', path, hpath, p, hl, hq.imp_right ?_⟩
  rintro ⟨hp, earlier, later, rfl, hmoves⟩
  exact ⟨hp, earlier, later ++ [op], by simp, hmoves⟩

/-- **A batch accounts for what it has changed.** In a workspace without links, a batch without a
journal whose questions are answered comes to its end, unless it is too deep. It has changed nothing
but below the root, and no regular file but those that are accounted for by operations that it reports
as applied. -/
theorem changed_applyAll (hj : a.journal = none) (ha : a.Answers)
    (hu : h.files.Unlinked a.workspace.root) (ops : List (Operation Text)) :
    (∃ r h', outcome (a.applyAll (ops.map (·.map .text))) h = (.ok r, h') ∧
      r.applied.Sublist (ops.map (·.map .text)) ∧
      h.Changed a.workspace.root (a.Accounted (ops.map (·.map .text)) h r) h') ∨
        a.IsTooDeep (ops.map (·.map .text)) h := by
  induction ops using List.reverseRecOn with
  | nil => exact .inl ⟨{}, h, rfl, List.Sublist.refl _, .refl hu⟩
  | append_singleton ops op ih =>
    rw [List.map_append, List.map_singleton]
    rcases ih with ⟨r, h₁, ho, hsub, hc⟩ | hdeep
    swap
    · exact .inr (hdeep.append _)
    have hall : outcome (a.applyAll (ops.map (·.map .text) ++ [op.map .text])) h =
        outcome ((r ++ ·) <$> a.applyNext {} (op.map .text)) h₁ := by
      rw [applyAll_concat, outcome_bind_of_ok ho, applyNext_eq_map]
    rcases outcome_applyNext_cases hj ha hc.unlinked op with ⟨s, h₂, hnext, hs⟩ | ⟨hd, hnext⟩
    swap
    · refine .inr ⟨hd, ?_⟩
      rw [hall, outcome_map, hnext]
      rfl
    refine .inl ⟨r ++ s, h₂, by rw [hall, outcome_map, hnext]; rfl, ?_⟩
    have hearlier : h.Changed a.workspace.root
        (a.Accounted (ops.map (·.map .text) ++ [op.map .text]) h (r ++ s)) h₁ :=
      hc.mono fun q hq => hq.concat _ s
    rcases hs with ⟨happlied, hcovered⟩ | ⟨happlied, hmade⟩
    · refine ⟨?_, hearlier.trans (hcovered.mono fun q hq => ?_)⟩
      · rw [BatchReport.applied_append, happlied]
        exact hsub.append_right _
      · obtain ⟨path, p, hpath, hl, hq⟩ := hq
        refine ⟨op.map .text, by simp [happlied], path, hpath, p, locates_of_changed hu hc hl, ?_⟩
        refine hq.imp_right fun ⟨hp, hmoves⟩ => ⟨hp, ops.map (·.map .text), [], rfl, ?_⟩
        rwa [ho]
    · refine ⟨?_, hearlier.trans hmade.changed⟩
      rw [BatchReport.applied_append, happlied, List.append_nil]
      exact hsub.trans (List.sublist_append_left _ _)

end Applier

end ReplyLedger
