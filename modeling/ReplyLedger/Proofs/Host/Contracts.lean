import ReplyLedger.Proofs.Host.Outcome

/-!
# Contracts of actions

`Meets P act Q E` says what an action comes to from a host of which `P` holds: a result, with a host
of which `Q` holds together with it, or a failure, with a host of which `E` does. The contracts of
the parts of an action make that of the whole (`Meets.bind`, `Meets.rescue`). An action that only
looks at the host leaves what holds of it, and adds what it has seen (`Looks.meets`).

`DoneOnlyIf G act` says that an action comes to a result only if `G` holds.
-/

namespace ReplyLedger.Action

variable {α β : Type} {P : Host → Prop} {E F : Failure → Host → Prop}

/-- What an action comes to, by a condition on its results and one on its failures. -/
def Meets (P : Host → Prop) (act : Action α) (Q : α → Host → Prop)
    (E : Failure → Host → Prop) : Prop :=
  ∀ h, P h →
    match outcome act h with
    | (.ok a, h') => Q a h'
    | (.error f, h') => E f h'

variable {M Q : α → Host → Prop} {R : β → Host → Prop}

theorem meets_pure {a : α} (hq : ∀ h, P h → Q a h) : Meets P (pure a) Q E := hq

theorem meets_fail {f : Failure} (he : ∀ h, P h → E f h) : Meets P (fail f : Action α) Q E := he

theorem Meets.mono {act : Action α} {P' : Host → Prop} {Q' : α → Host → Prop}
    {E' : Failure → Host → Prop} (ha : Meets P act Q E) (hp : ∀ h, P' h → P h)
    (hq : ∀ a h, Q a h → Q' a h) (he : ∀ f h, E f h → E' f h) : Meets P' act Q' E' := by
  intro h hp'
  have hm := ha h (hp h hp')
  rcases ho : outcome act h with ⟨f | a, h'⟩
  · rw [ho] at hm
    exact he f h' hm
  · rw [ho] at hm
    exact hq a h' hm

theorem Meets.bind {act : Action α} {f : α → Action β} (ha : Meets P act M E)
    (hf : ∀ a, Meets (M a) (f a) R E) : Meets P (act >>= f) R E := by
  intro h hp
  have hm := ha h hp
  rw [outcome_bind]
  rcases ho : outcome act h with ⟨e | a, h'⟩
  · rw [ho] at hm
    exact hm
  · rw [ho] at hm
    exact hf a h' hm

/-- A failure that is caught is made up for by the handler, and the others are left. -/
theorem Meets.rescue {act : Action α} {catches : Failure → Bool} {handler : Failure → Action α}
    (ha : Meets P act Q F) (hf : ∀ f, catches f → Meets (F f) (handler f) Q E)
    (he : ∀ f h, F f h → ¬ catches f → E f h) : Meets P (rescue act catches handler) Q E := by
  intro h hp
  have hm := ha h hp
  rw [outcome_rescue]
  rcases ho : outcome act h with ⟨f | a, h'⟩
  · rw [ho] at hm
    by_cases hc : catches f
    · simp only [hc, if_true]
      exact hf f hc h' hm
    · simp only [hc]
      exact he f h' hm hc
  · rw [ho] at hm
    exact hm

/-- A check that fails if `c` holds, and then the rest. -/
theorem Meets.unless {c : Prop} [Decidable c] {f : Failure} {rest : Unit → Action β}
    (he : c → ∀ h, P h → E f h) (hr : ¬ c → Meets P (rest ()) R E) :
    Meets P (if c then fail f >>= rest else rest ()) R E := by
  split
  · rename_i hc
    have hfail : Meets P (fail f : Action Unit) (fun _ _ => False) E := meets_fail (he hc)
    exact hfail.bind fun _ h hh => hh.elim
  · rename_i hc
    exact hr hc

/-! ## The failures of actions -/

/-- Whatever failure the action ends with, `K` holds of it. -/
def FailsWith (K : Failure → Prop) (act : Action α) : Prop :=
  ∀ h f, (outcome act h).1 = .error f → K f

/-- Whatever failure the action ends with, it ends only the operation in which it arises. -/
abbrev EndsOnly (act : Action α) : Prop := FailsWith (fun f => f.endsOperation) act

variable {K L : Failure → Prop}

theorem failsWith_pure (a : α) : FailsWith K (pure a : Action α) := by
  intro h f hf
  simp at hf

theorem failsWith_fail {f : Failure} (hf : K f) : FailsWith K (fail f : Action α) := by
  intro h f' hf'
  rw [outcome_fail] at hf'
  rwa [← Except.error.inj hf']

theorem FailsWith.mono {act : Action α} (ha : FailsWith K act) (hk : ∀ f, K f → L f) :
    FailsWith L act := fun h f hf => hk f (ha h f hf)

theorem FailsWith.bind {act : Action α} {f : α → Action β} (ha : FailsWith K act)
    (hf : ∀ a, FailsWith K (f a)) : FailsWith K (act >>= f) := by
  intro h e he
  have hh := ha h e
  rw [outcome_bind] at he
  rcases ho : outcome act h with ⟨e' | a, h'⟩
  · rw [ho] at he hh
    exact hh (by simpa using he)
  · rw [ho] at he
    exact hf a h' e he

/-- A failure that is caught is left to the handler. -/
theorem FailsWith.rescue {act : Action α} {catches : Failure → Bool} {handler : Failure → Action α}
    (ha : FailsWith K act) (hf : ∀ f, K f → FailsWith L (handler f))
    (hk : ∀ f, K f → ¬ catches f → L f) : FailsWith L (rescue act catches handler) := by
  intro h e he
  have hh := ha h
  rw [outcome_rescue] at he
  rcases ho : outcome act h with ⟨f | a, h'⟩
  · rw [ho] at he hh
    dsimp only at he
    split at he
    · exact hf f (hh f rfl) h' e he
    · rename_i hc
      obtain rfl := Except.error.inj he
      exact hk f (hh f rfl) hc
  · simp [ho] at he

/-- A check that fails if `c` holds, and then the rest. -/
theorem FailsWith.unless {c : Prop} [Decidable c] {f : Failure} {rest : Unit → Action β} (hf : K f)
    (hr : FailsWith K (rest ())) : FailsWith K (if c then fail f >>= rest else rest ()) := by
  split
  · exact (failsWith_fail (α := Unit) hf).bind fun _ _ e he => hr _ e he
  · exact hr

/-- What is known of all failures of an action adds to what a contract says of them. -/
theorem Meets.failsWith {act : Action α} (ha : Meets P act Q E) (hk : FailsWith K act) :
    Meets P act Q (fun f h => K f ∧ E f h) := by
  intro h hp
  have hm := ha h hp
  rcases ho : outcome act h with ⟨f | a, h'⟩
  · rw [ho] at hm
    exact ⟨hk h f (by rw [ho]), hm⟩
  · rw [ho] at hm
    exact hm

theorem endsOnly_get : EndsOnly (get : Action Host) := by
  intro h f hf
  simp at hf

theorem endsOnly_call (path : Text) (f : FileSystem → CurrentDirectory → Except Errno α) :
    EndsOnly (call path f) := by
  unfold call
  split
  · exact failsWith_fail rfl
  · refine endsOnly_get.bind fun h => ?_
    rcases f h.files h.cwd with error | a
    · exact failsWith_fail rfl
    · exact failsWith_pure a

theorem endsOnly_change (path : Text)
    (f : FileSystem → CurrentDirectory → Except Errno FileSystem) : EndsOnly (change path f) :=
  (endsOnly_call path f).bind fun _ _ _ hf => nomatch hf

theorem endsOnly_status? (path : Text) : EndsOnly (status? path) := by
  unfold status?
  split
  · exact failsWith_pure _
  · refine endsOnly_get.bind fun h => ?_
    split
    · exact failsWith_pure _
    · exact failsWith_pure _
    · exact failsWith_pure _
    · exact failsWith_pure _
    · exact failsWith_fail rfl

theorem endsOnly_pathExists (path : Text) : EndsOnly (pathExists path) :=
  (endsOnly_status? path).bind fun _ => failsWith_pure _

theorem endsOnly_isDirectory (path : Text) : EndsOnly (isDirectory path) :=
  (endsOnly_status? path).bind fun _ => failsWith_pure _

theorem endsOnly_isFile (path : Text) : EndsOnly (isFile path) := by
  refine (endsOnly_status? path).bind fun e => ?_
  split <;> exact failsWith_pure _

theorem endsOnly_readText (path : Text) : EndsOnly (readText path) := by
  refine (endsOnly_call path _).bind fun bytes => ?_
  split
  · exact failsWith_pure _
  · exact failsWith_fail rfl

/-- What holds of a host holds of it after a look. -/
theorem Looks.keeps {act : Action α} (ha : Looks act) : Meets P act (fun _ => P) fun _ => P := by
  intro h hp
  have hh := ha h
  rcases ho : outcome act h with ⟨f | a, h'⟩
  · rw [ho] at hh
    obtain rfl : h' = h := hh
    exact hp
  · rw [ho] at hh
    obtain rfl : h' = h := hh
    exact hp

/-- What is seen of the host holds of it, and nothing has changed. -/
theorem Looks.meets {act : Action α} (ha : Looks act) (hE : EndsOnly act) :
    Meets P act (fun a h => P h ∧ outcome act h = (.ok a, h))
      (fun f h => f.endsOperation ∧ P h) := by
  intro h hp
  have hh := ha h
  rcases ho : outcome act h with ⟨f | a, h'⟩
  · rw [ho] at hh
    obtain rfl : h' = h := hh
    exact ⟨hE h' f (by rw [ho]), hp⟩
  · rw [ho] at hh
    obtain rfl : h' = h := hh
    exact ⟨hp, ho⟩

theorem Looks.meets_bind {act : Action α} {f : α → Action β} (ha : Looks act) (hE : EndsOnly act)
    (he : ∀ f h, f.endsOperation → P h → E f h)
    (hf : ∀ a, Meets (fun h => P h ∧ outcome act h = (.ok a, h)) (f a) R E) :
    Meets P (act >>= f) R E :=
  ((ha.meets hE).mono (fun _ h => h) (fun _ _ h => h) fun f h hh => he f h hh.1 hh.2).bind hf

/-! ## Showing, asking and changing -/

theorem meets_say {level : Level} {text : Text} {Q : Unit → Host → Prop}
    (hq : ∀ h, P h → Q () { h with console := h.console.emit (.message level text) }) :
    Meets P (say level text) Q E := hq

/-- What an action ensures of the files holds of what it comes to. -/
theorem Ensures.meets {P Q : FileSystem → Prop} {act : Action α} (ha : Ensures P act Q) :
    Meets (fun h => P h.files) act (fun _ h => Q h.files) (fun _ h => Q h.files) := by
  intro h hp
  have hq := ha h hp
  rcases ho : outcome act h with ⟨f | a, h'⟩
  · rwa [ho] at hq
  · rwa [ho] at hq

/-- A call that changes the files or is refused. -/
theorem meets_change {path : Text} {f : FileSystem → CurrentDirectory → Except Errno FileSystem}
    {Q : Unit → Host → Prop}
    (hq : ∀ h files, P h → f h.files h.cwd = .ok files → Q () { h with files }) :
    Meets P (change path f) Q (fun f h => f.endsOperation ∧ P h) := by
  intro h hp
  by_cases hn : FileSystem.hasNul path
  · rw [outcome_change_of_hasNul hn]
    exact ⟨rfl, hp⟩
  · rw [outcome_change (by simpa using hn)]
    rcases hc : f h.files h.cwd with e | files
    · exact ⟨rfl, hp⟩
    · exact hq h files hp hc

/-! ## What has to hold for an action to be done -/

/-- An action that comes to a result only if `G` holds. -/
def DoneOnlyIf (G : Prop) (act : Action α) : Prop := ∀ h a, (outcome act h).1 = .ok a → G

theorem DoneOnlyIf.bind_left {G : Prop} {act : Action α} (ha : DoneOnlyIf G act)
    (f : α → Action β) : DoneOnlyIf G (act >>= f) := by
  intro h b hb
  rw [outcome_bind] at hb
  rcases ho : outcome act h with ⟨e | a, h'⟩
  · simp [ho] at hb
  · exact ha h a (by rw [ho])

theorem DoneOnlyIf.bind {G : Prop} {act : Action α} {f : α → Action β}
    (hf : ∀ a, DoneOnlyIf G (f a)) : DoneOnlyIf G (act >>= f) := by
  intro h b hb
  rw [outcome_bind] at hb
  rcases ho : outcome act h with ⟨e | a, h'⟩
  · simp [ho] at hb
  · rw [ho] at hb
    exact hf a h' b hb

/-- A check that fails if `c` holds, and then the rest. -/
theorem DoneOnlyIf.unless {G c : Prop} [Decidable c] {f : Failure}
    {rest : Unit → Action β} (hr : DoneOnlyIf G (rest ())) :
    DoneOnlyIf G (if c then fail f >>= rest else rest ()) := by
  split
  · exact fun h b hb => by simp [outcome_bind] at hb
  · exact hr

end ReplyLedger.Action
