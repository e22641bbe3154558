import ReplyLedger.Host.Files

/-!
# What an action comes to

`outcome act s` is the result of a step from the state `s`, with the state that it leaves. The
lemmas of the first section say how outcomes are put together; they hold for actions and for steps
of a ledger alike.

`Ensures P act Q` says of an action that it takes files with the property `P` to files with the
property `Q`, whatever it comes to. Actions that only look at the host keep the files
(`ensures_of_files_eq`), and an action that changes them does so by the call that it makes
(`ensures_change`).
-/

namespace ReplyLedger

section Outcome

variable {ε σ α β : Type}

/-- What a step comes to from a state, and the state that it leaves. -/
def outcome (act : ExceptT ε (StateM σ) α) (s : σ) : Except ε α × σ := act s

@[simp] theorem outcome_pure (a : α) (s : σ) :
    outcome (pure a : ExceptT ε (StateM σ) α) s = (.ok a, s) := rfl

@[simp] theorem outcome_throw (e : ε) (s : σ) :
    outcome (throw e : ExceptT ε (StateM σ) α) s = (.error e, s) := rfl

@[simp] theorem outcome_get (s : σ) : outcome (get : ExceptT ε (StateM σ) σ) s = (.ok s, s) := rfl

@[simp] theorem outcome_set (s s' : σ) :
    outcome (set s' : ExceptT ε (StateM σ) PUnit) s = (.ok ⟨⟩, s') := rfl

@[simp] theorem outcome_modify (f : σ → σ) (s : σ) :
    outcome (modify f : ExceptT ε (StateM σ) PUnit) s = (.ok ⟨⟩, f s) := rfl

theorem outcome_bind (act : ExceptT ε (StateM σ) α) (f : α → ExceptT ε (StateM σ) β) (s : σ) :
    outcome (act >>= f) s =
      match outcome act s with
      | (.ok a, s') => outcome (f a) s'
      | (.error e, s') => (.error e, s') := by
  unfold outcome
  simp only [bind, ExceptT.bind, ExceptT.mk, StateT.bind]
  rcases act s with ⟨_ | _, _⟩ <;> rfl

theorem outcome_bind_of_ok {act : ExceptT ε (StateM σ) α} {f : α → ExceptT ε (StateM σ) β}
    {s s' : σ} {a : α} (h : outcome act s = (.ok a, s')) :
    outcome (act >>= f) s = outcome (f a) s' := by
  rw [outcome_bind, h]

theorem outcome_bind_of_error {act : ExceptT ε (StateM σ) α} {f : α → ExceptT ε (StateM σ) β}
    {s s' : σ} {e : ε} (h : outcome act s = (.error e, s')) :
    outcome (act >>= f) s = (.error e, s') := by
  rw [outcome_bind, h]

/-- Steps in a row that have come to a result have come to one each. -/
theorem exists_of_outcome_bind {act : ExceptT ε (StateM σ) α}
    {f : α → ExceptT ε (StateM σ) β} {s s' : σ} {b : β}
    (h : outcome (act >>= f) s = (.ok b, s')) :
    ∃ a s₁, outcome act s = (.ok a, s₁) ∧ outcome (f a) s₁ = (.ok b, s') := by
  rw [outcome_bind] at h
  rcases ho : outcome act s with ⟨e | a, s₁⟩
  · rw [ho] at h
    exact nomatch h
  · rw [ho] at h
    exact ⟨a, s₁, rfl, h⟩

theorem outcome_map (f : α → β) (act : ExceptT ε (StateM σ) α) (s : σ) :
    outcome (f <$> act) s = ((outcome act s).1.map f, (outcome act s).2) := by
  rw [map_eq_pure_bind, outcome_bind]
  rcases outcome act s with ⟨_ | _, _⟩ <;> rfl

theorem outcome_tryCatch (act : ExceptT ε (StateM σ) α) (handler : ε → ExceptT ε (StateM σ) α)
    (s : σ) : outcome (tryCatch act handler) s =
      match outcome act s with
      | (.ok a, s') => (.ok a, s')
      | (.error e, s') => outcome (handler e) s' := by
  unfold outcome
  simp only [tryCatch, tryCatchThe, MonadExceptOf.tryCatch, ExceptT.tryCatch, ExceptT.mk, bind,
    StateT.bind]
  rcases act s with ⟨_ | _, _⟩ <;> rfl

/-- A step for each item that leaves the state alone and yields what the item was made from. -/
theorem outcome_filterMapM {f : α → ExceptT ε (StateM σ) (Option β)} {s : σ} {source : β → α}
    {P : β → Prop} {items : List α}
    (h : ∀ a ∈ items, ∃ b, source b = a ∧ P b ∧ outcome (f a) s = (.ok (some b), s)) :
    ∃ results, results.map source = items ∧ (∀ b ∈ results, P b) ∧
      outcome (items.filterMapM f) s = (.ok results, s) := by
  induction items with
  | nil => exact ⟨[], rfl, by simp, rfl⟩
  | cons a items ih =>
    obtain ⟨b, hb, hp, ho⟩ := h a List.mem_cons_self
    obtain ⟨results, hr, hps, hos⟩ := ih fun a ha => h a (List.mem_cons_of_mem _ ha)
    refine ⟨b :: results, by rw [List.map_cons, hb, hr], ?_, ?_⟩
    · intro c hc
      rcases List.mem_cons.1 hc with rfl | hc
      · exact hp
      · exact hps c hc
    · rw [List.filterMapM_cons, outcome_bind_of_ok ho]
      simp only
      rw [outcome_bind_of_ok hos]
      rfl

end Outcome

namespace Action

variable {α β : Type}

@[simp] theorem outcome_fail (f : Failure) (h : Host) :
    outcome (fail f : Action α) h = (.error f, h) := rfl

@[simp] theorem outcome_emit (e : Event) (h : Host) :
    outcome (emit e) h = (.ok (), { h with console := h.console.emit e }) := rfl

@[simp] theorem outcome_say (level : Level) (text : Text) (h : Host) : outcome (say level text) h =
    (.ok (), { h with console := h.console.emit (.message level text) }) := rfl

theorem outcome_ask (confirm : Confirm) (question : Text) (h : Host) :
    outcome (ask confirm question) h =
      (match (confirm question h.console).1 with
        | some answer => .ok answer
        | none => .error .interrupted,
        { h with console := (confirm question h.console).2 }) := by
  rw [ask, outcome_bind_of_ok (outcome_get h)]
  rcases confirm question h.console with ⟨_ | _, c⟩ <;> rfl

@[simp] theorem outcome_journalNow (h : Host) : outcome journalNow h =
    (.ok h.journalReading, { h with journalClock := h.journalClock.tail }) := rfl

theorem outcome_rescue (act : Action α) (catches : Failure → Bool)
    (handler : Failure → Action α) (h : Host) : outcome (rescue act catches handler) h =
      match outcome act h with
      | (.ok a, h') => (.ok a, h')
      | (.error f, h') => if catches f then outcome (handler f) h' else (.error f, h') := by
  rw [rescue, outcome_tryCatch]
  rcases outcome act h with ⟨f | _, h'⟩
  · dsimp only
    split <;> rfl
  · rfl

theorem outcome_call {path : Text} (hp : FileSystem.hasNul path = false)
    (f : FileSystem → CurrentDirectory → Except Errno α) (h : Host) :
    outcome (call path f) h = ((f h.files h.cwd).mapError (.system · path), h) := by
  rw [call, if_neg (by simp [hp]), outcome_bind_of_ok (outcome_get h)]
  cases f h.files h.cwd <;> rfl

theorem outcome_call_of_ok {path : Text} (hp : FileSystem.hasNul path = false)
    {f : FileSystem → CurrentDirectory → Except Errno α} {h : Host} {a : α}
    (ha : f h.files h.cwd = .ok a) : outcome (call path f) h = (.ok a, h) := by
  rw [outcome_call hp, ha]
  rfl

/-- A text is read from a file with the bytes of one. -/
theorem outcome_readText_of_decode {path : Text} (hp : FileSystem.hasNul path = false) {h : Host}
    {bytes : Bytes} {t : Text} (hr : h.files.readFile h.cwd path = .ok bytes)
    (ht : Utf8.decode bytes = .ok t) : outcome (readText path) h = (.ok t, h) := by
  rw [readText, readTextWith, outcome_bind_of_ok (outcome_call_of_ok hp hr), Utf8.decodeWith, ht]
  rfl

theorem outcome_call_of_hasNul {path : Text} (hp : FileSystem.hasNul path = true)
    (f : FileSystem → CurrentDirectory → Except Errno α) (h : Host) :
    outcome (call path f) h = (.error .badName, h) := by
  rw [call, if_pos hp]
  rfl

theorem outcome_change {path : Text} (hp : FileSystem.hasNul path = false)
    (f : FileSystem → CurrentDirectory → Except Errno FileSystem) (h : Host) :
    outcome (change path f) h =
      match f h.files h.cwd with
      | .ok files => (.ok (), { h with files })
      | .error e => (.error (.system e path), h) := by
  rw [change, outcome_bind, outcome_call hp]
  cases f h.files h.cwd <;> rfl

theorem outcome_change_of_hasNul {path : Text} (hp : FileSystem.hasNul path = true)
    (f : FileSystem → CurrentDirectory → Except Errno FileSystem) (h : Host) :
    outcome (change path f) h = (.error .badName, h) := by
  rw [change, outcome_bind_of_error (outcome_call_of_hasNul hp f h)]

/-- A change is one of the files. -/
theorem git_change (path : Text) (f : FileSystem → CurrentDirectory → Except Errno FileSystem)
    (h : Host) : (outcome (change path f) h).2.git = h.git := by
  rcases hp : FileSystem.hasNul path with _ | _
  · rw [outcome_change hp]
    split <;> rfl
  · rw [outcome_change_of_hasNul hp]

/-! ## Actions that only look at the host -/

/-- An action that leaves the host as it is. -/
def Looks (act : Action α) : Prop := ∀ h, (outcome act h).2 = h

theorem looks_pure (a : α) : Looks (pure a : Action α) := fun _ => rfl

theorem looks_fail (f : Failure) : Looks (fail f : Action α) := fun _ => rfl

theorem looks_get : Looks (get : Action Host) := fun _ => rfl

theorem Looks.bind {act : Action α} {f : α → Action β} (ha : Looks act) (hf : ∀ a, Looks (f a)) :
    Looks (act >>= f) := by
  intro h
  have hh := ha h
  rw [outcome_bind]
  generalize outcome act h = o at hh ⊢
  rcases o with ⟨_ | a, h'⟩
  · exact hh
  · exact (hf a h').trans hh

theorem looks_ofCall {path : Text} (r : Except Errno α) : Looks (ofCall path r) := by
  cases r with
  | error e => exact looks_fail _
  | ok a => exact looks_pure a

theorem looks_call (path : Text) (f : FileSystem → CurrentDirectory → Except Errno α) :
    Looks (call path f) := by
  unfold call
  split
  · exact looks_fail _
  · exact looks_get.bind fun h => looks_ofCall _

theorem looks_status? (path : Text) : Looks (status? path) := by
  unfold status?
  split
  · exact looks_pure _
  · refine looks_get.bind fun h => ?_
    split
    · exact looks_pure _
    · exact looks_pure _
    · exact looks_pure _
    · exact looks_pure _
    · exact looks_fail _

theorem status_of_status? {path : Text} {h : Host} {e : Entry}
    (ho : (outcome (status? path) h).1 = .ok (some e)) :
    h.files.status h.cwd path = .ok e := by
  unfold status? at ho
  split at ho
  · simp at ho
  · rw [outcome_bind_of_ok (outcome_get h)] at ho
    split at ho
    · rename_i e' he
      rw [he]
      simpa using ho
    all_goals simp at ho

theorem outcome_status?_of_status {path : Text} {h : Host} {e : Entry}
    (hp : FileSystem.hasNul path = false) (hs : h.files.status h.cwd path = .ok e) :
    outcome (status? path) h = (.ok (some e), h) := by
  rw [status?, if_neg (by simp [hp]), outcome_bind_of_ok (outcome_get h), hs]
  rfl

/-- What is said to be there is found. -/
theorem exists_status_of_pathExists {path : Text} {h : Host}
    (ho : (outcome (pathExists path) h).1 = .ok true) : ∃ e, h.files.status h.cwd path = .ok e := by
  rw [pathExists, outcome_bind] at ho
  rcases hst : outcome (status? path) h with ⟨_ | _ | e, h'⟩
  · simp [hst] at ho
  · simp [hst] at ho
  · exact ⟨e, status_of_status? (by rw [hst])⟩

/-- Where nothing is said to be, nothing is found. -/
theorem status_of_not_pathExists {path : Text} {h : Host} (hp : FileSystem.hasNul path = false)
    (ho : (outcome (pathExists path) h).1 = .ok false) (e : Entry) :
    h.files.status h.cwd path ≠ .ok e := by
  intro he
  rw [pathExists, outcome_bind_of_ok (outcome_status?_of_status hp he)] at ho
  simp at ho

theorem looks_pathExists (path : Text) : Looks (pathExists path) :=
  (looks_status? path).bind fun _ => looks_pure _

theorem looks_isDirectory (path : Text) : Looks (isDirectory path) :=
  (looks_status? path).bind fun _ => looks_pure _

theorem looks_isFile (path : Text) : Looks (isFile path) := by
  refine (looks_status? path).bind fun e => ?_
  split <;> exact looks_pure _

theorem looks_readTextWith (mode : Utf8.OnBroken) (path : Text) :
    Looks (readTextWith mode path) := by
  refine (looks_call path _).bind fun bytes => ?_
  split
  · exact looks_pure _
  · exact looks_fail _

theorem looks_readText (path : Text) : Looks (readText path) := looks_readTextWith .strict path

/-! ## What actions do to the files -/

/-- An action that takes files with the property `P` to files with the property `Q`. -/
def Ensures (P : FileSystem → Prop) (act : Action α) (Q : FileSystem → Prop) : Prop :=
  ∀ h : Host, P h.files → Q (outcome act h).2.files

variable {P M Q : FileSystem → Prop}

theorem Ensures.mono {act : Action α} {P' Q' : FileSystem → Prop} (ha : Ensures P act Q)
    (hP : ∀ fs, P' fs → P fs) (hQ : ∀ fs, Q fs → Q' fs) : Ensures P' act Q' :=
  fun h hp => hQ _ (ha h (hP _ hp))

/-- An action that leaves the files as they are keeps what holds of them. -/
theorem ensures_of_files_eq {act : Action α} (ha : ∀ h, (outcome act h).2.files = h.files)
    (hPQ : ∀ fs, P fs → Q fs) : Ensures P act Q := by
  intro h hp
  rw [ha]
  exact hPQ _ hp

theorem Looks.ensures {act : Action α} (ha : Looks act) (hPQ : ∀ fs, P fs → Q fs) :
    Ensures P act Q :=
  ensures_of_files_eq (fun h => by rw [ha]) hPQ

/-- A failure of the first action ends the whole, so what holds between the two has to be enough at
the end. -/
theorem Ensures.bind {act : Action α} {f : α → Action β} (ha : Ensures P act M)
    (hf : ∀ a, Ensures M (f a) Q) (hMQ : ∀ fs, M fs → Q fs) : Ensures P (act >>= f) Q := by
  intro h hp
  have hm := ha h hp
  rw [outcome_bind]
  generalize outcome act h = o at hm ⊢
  rcases o with ⟨_ | a, h'⟩
  · exact hMQ _ hm
  · exact hf a h' hm

theorem Looks.bind_ensures {act : Action α} {f : α → Action β} (ha : Looks act)
    (hf : ∀ a, Ensures P (f a) Q) (hPQ : ∀ fs, P fs → Q fs) : Ensures P (act >>= f) Q :=
  (ha.ensures fun _ h => h).bind hf hPQ

/-- A check that fails if `c` holds, and then the rest. -/
theorem Ensures.unless {c : Prop} [Decidable c] {f : Failure} {rest : Unit → Action β}
    (hr : Ensures P (rest ()) Q) (hPQ : ∀ fs, P fs → Q fs) :
    Ensures P (if c then fail f >>= rest else rest ()) Q := by
  split
  · exact (looks_fail f).bind_ensures (fun _ => hr) hPQ
  · exact hr

theorem Ensures.rescue {act : Action α} {catches : Failure → Bool} {handler : Failure → Action α}
    (ha : Ensures P act M) (hf : ∀ f, Ensures M (handler f) Q) (hMQ : ∀ fs, M fs → Q fs) :
    Ensures P (rescue act catches handler) Q := by
  intro h hp
  have hm := ha h hp
  rw [outcome_rescue]
  generalize outcome act h = o at hm ⊢
  rcases o with ⟨f | a, h'⟩
  · dsimp only
    split
    · exact hf f h' hm
    · exact hMQ _ hm
  · exact hMQ _ hm

theorem ensures_say (level : Level) (text : Text) (hPQ : ∀ fs, P fs → Q fs) :
    Ensures P (say level text) Q := ensures_of_files_eq (fun _ => rfl) hPQ

theorem ensures_journalNow (hPQ : ∀ fs, P fs → Q fs) : Ensures P journalNow Q :=
  ensures_of_files_eq (fun _ => rfl) hPQ

theorem ensures_ask (confirm : Confirm) (question : Text) (hPQ : ∀ fs, P fs → Q fs) :
    Ensures P (ask confirm question) Q := by
  refine ensures_of_files_eq (fun h => ?_) hPQ
  rw [ask, outcome_bind_of_ok (outcome_get h)]
  rcases confirm question h.console with ⟨_ | _, c⟩ <;> rfl

theorem ensures_change {path : Text}
    {f : FileSystem → CurrentDirectory → Except Errno FileSystem}
    (hf : ∀ fs cwd gs, P fs → f fs cwd = .ok gs → Q gs) (hPQ : ∀ fs, P fs → Q fs) :
    Ensures P (change path f) Q := by
  intro h hp
  by_cases hn : FileSystem.hasNul path
  · rw [outcome_change_of_hasNul hn]
    exact hPQ _ hp
  · rw [outcome_change (by simpa using hn)]
    rcases hc : f h.files h.cwd with _ | gs
    · exact hPQ _ hp
    · exact hf _ _ _ hp hc

end Action

end ReplyLedger
