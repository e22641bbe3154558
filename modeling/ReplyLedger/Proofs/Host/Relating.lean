import ReplyLedger.Proofs.Host.Outcome

/-!
# Two runs side by side

A step relates two states if it comes to the same from both, and leaves states that are related again
(`Relates`). Steps in a row do that if each of them does (`Relates.bind`), and so do loops and handlers
of failures; what is left are the steps that look at the state or change it (`relates_get_bind`,
`relates_modify`).
-/

namespace ReplyLedger

section Relating

variable {ε σ α β : Type} {R : σ → σ → Prop}

/-- A step that comes to the same from related states, and leaves related states. -/
def Relates (R : σ → σ → Prop) (act : ExceptT ε (StateM σ) α) : Prop :=
  ∀ s₁ s₂, R s₁ s₂ →
    (outcome act s₁).1 = (outcome act s₂).1 ∧ R (outcome act s₁).2 (outcome act s₂).2

theorem relates_pure (a : α) : Relates R (pure a : ExceptT ε (StateM σ) α) := fun _ _ h => ⟨rfl, h⟩

theorem relates_throw (e : ε) : Relates R (throw e : ExceptT ε (StateM σ) α) :=
  fun _ _ h => ⟨rfl, h⟩

theorem Relates.bind {act : ExceptT ε (StateM σ) α} {f : α → ExceptT ε (StateM σ) β}
    (ha : Relates R act) (hf : ∀ a, Relates R (f a)) : Relates R (act >>= f) := by
  intro s₁ s₂ h
  obtain ⟨hr, hh⟩ := ha s₁ s₂ h
  rw [outcome_bind, outcome_bind]
  rcases ho : outcome act s₁ with ⟨x, s₁'⟩
  rcases ho' : outcome act s₂ with ⟨y, s₂'⟩
  rw [ho, ho'] at hr hh
  obtain rfl : x = y := hr
  cases x with
  | error e => exact ⟨rfl, hh⟩
  | ok a => exact hf a s₁' s₂' hh

theorem Relates.map (f : α → β) {act : ExceptT ε (StateM σ) α} (ha : Relates R act) :
    Relates R (f <$> act) := by
  rw [map_eq_pure_bind]
  exact ha.bind fun _ => relates_pure _

theorem Relates.tryCatch {act : ExceptT ε (StateM σ) α} {handler : ε → ExceptT ε (StateM σ) α}
    (ha : Relates R act) (hf : ∀ e, Relates R (handler e)) :
    Relates R (tryCatch act handler) := by
  intro s₁ s₂ h
  obtain ⟨hr, hh⟩ := ha s₁ s₂ h
  rw [outcome_tryCatch, outcome_tryCatch]
  rcases ho : outcome act s₁ with ⟨x, s₁'⟩
  rcases ho' : outcome act s₂ with ⟨y, s₂'⟩
  rw [ho, ho'] at hr hh
  obtain rfl : x = y := hr
  cases x with
  | error e => exact hf e s₁' s₂' hh
  | ok a => exact ⟨rfl, hh⟩

/-- A loop relates states if each turn of it does. -/
theorem Relates.forM {items : List α} {f : α → ExceptT ε (StateM σ) PUnit}
    (hf : ∀ a, Relates R (f a)) : Relates R (items.forM f) := by
  induction items with
  | nil => exact relates_pure _
  | cons item items ih => exact (hf item).bind fun _ => ih

/-- A fold relates states if each turn of it does. -/
theorem Relates.foldlM {items : List α} {f : β → α → ExceptT ε (StateM σ) β}
    (hf : ∀ b, ∀ a ∈ items, Relates R (f b a)) (b : β) : Relates R (items.foldlM f b) := by
  induction items generalizing b with
  | nil => exact relates_pure b
  | cons item items ih =>
    rw [List.foldlM_cons]
    refine (hf b item List.mem_cons_self).bind fun b' => ?_
    exact ih (fun b a ha => hf b a (List.mem_cons_of_mem _ ha)) b'

/-- What is done with the state may depend on what related states have in common. -/
theorem relates_get_bind {f : σ → ExceptT ε (StateM σ) α} (hf : ∀ s, Relates R (f s))
    (he : ∀ s₁ s₂, R s₁ s₂ → f s₁ = f s₂) : Relates R (get >>= f) := by
  intro s₁ s₂ h
  rw [outcome_bind_of_ok (outcome_get s₁), outcome_bind_of_ok (outcome_get s₂), he s₁ s₂ h]
  exact hf s₂ s₁ s₂ h

theorem relates_modify {f : σ → σ} (hf : ∀ s₁ s₂, R s₁ s₂ → R (f s₁) (f s₂)) :
    Relates R (modify f : ExceptT ε (StateM σ) PUnit) := fun s₁ s₂ h => ⟨rfl, hf s₁ s₂ h⟩

end Relating

namespace Action

variable {α β : Type} {R : Host → Host → Prop}

theorem relates_fail (f : Failure) : Relates R (fail f : Action α) := relates_throw f

theorem relates_rescue {act : Action α} {catches : Failure → Bool} {handler : Failure → Action α}
    (ha : Relates R act) (hf : ∀ f, Relates R (handler f)) :
    Relates R (rescue act catches handler) := by
  refine ha.tryCatch fun f => ?_
  split
  · exact hf f
  · exact relates_throw f

/-- A check that fails if `c` holds, and then the rest. -/
theorem relates_unless {c : Prop} [Decidable c] {f : Failure} {rest : Unit → Action β}
    (hr : Relates R (rest ())) : Relates R (if c then fail f >>= rest else rest ()) := by
  split
  · exact fun _ _ h => ⟨rfl, h⟩
  · exact hr

theorem relates_ofCall {path : Text} (r : Except Errno α) : Relates R (ofCall path r) := by
  cases r with
  | error e => exact relates_fail _
  | ok a => exact relates_pure a

end Action

end ReplyLedger
