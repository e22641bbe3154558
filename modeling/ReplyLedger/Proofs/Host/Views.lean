import ReplyLedger.Proofs.Host.Relating

/-!
# What an action does not look at

A view says which consoles look alike (`Console.View`): those that differ in what has been shown only,
say, or in the input that is left. Two hosts resemble each other if they differ in their consoles only
and these look alike (`Host.Resembles`), and an action is heedless of the difference if it comes to the
same on such hosts, and leaves two of them (`Action.Heedless`). Whatever works on the files alone is
heedless, and so is what shows a message.
-/

namespace ReplyLedger

namespace Console

/-- The console with nothing shown. -/
def unshown (c : Console) : Console := { c with transcript := [] }

/-- The console without the input that is left. -/
def unread (c : Console) : Console := { c with input := [] }

/-- A view of consoles. Consoles that look alike do so after one more event. -/
structure View where
  Alike : Console → Console → Prop
  emit : ∀ {c₁ c₂ : Console} (e : Event), Alike c₁ c₂ → Alike (c₁.emit e) (c₂.emit e)

namespace View

/-- The view of all but what has been shown. -/
def unshown : View where
  Alike c₁ c₂ := c₁.unshown = c₂.unshown
  emit _ h := h

/-- The view of all but the input that is left. -/
def unread : View where
  Alike c₁ c₂ := c₁.unread = c₂.unread
  emit e h := congrArg (Console.emit · e) h

/-- The view of all but the input that is left, which on the second console is `input`. -/
def holding (input : Text) : View where
  Alike c₁ c₂ := c₁.unread = c₂.unread ∧ c₂.input = input
  emit e h := ⟨congrArg (Console.emit · e) h.1, h.2⟩

theorem equivalence_unshown : Equivalence unshown.Alike := ⟨fun _ => rfl, Eq.symm, Eq.trans⟩

end View

end Console

variable {v w : Console.View}

/-- Two hosts that differ in their consoles only, and these look alike. -/
def Host.Resembles (v : Console.View) (h₁ h₂ : Host) : Prop :=
  ∃ c, h₂ = { h₁ with console := c } ∧ v.Alike h₁.console c

namespace Host.Resembles

variable {h₁ h₂ h₃ : Host}

theorem refl (hv : Equivalence v.Alike) (h : Host) : h.Resembles v h := ⟨h.console, rfl, hv.refl _⟩

theorem symm (hv : Equivalence v.Alike) (h : h₁.Resembles v h₂) : h₂.Resembles v h₁ := by
  obtain ⟨c, rfl, hc⟩ := h
  exact ⟨h₁.console, rfl, hv.symm hc⟩

theorem trans (hv : Equivalence v.Alike) (h : h₁.Resembles v h₂) (h' : h₂.Resembles v h₃) :
    h₁.Resembles v h₃ := by
  obtain ⟨c, rfl, hc⟩ := h
  obtain ⟨c', rfl, hc'⟩ := h'
  exact ⟨c', rfl, hv.trans hc hc'⟩

/-- Hosts that resemble each other do so in every view that does not tell their consoles apart. -/
theorem mono (hw : ∀ c₁ c₂, v.Alike c₁ c₂ → w.Alike c₁ c₂) (h : h₁.Resembles v h₂) :
    h₁.Resembles w h₂ := by
  obtain ⟨c, rfl, hc⟩ := h
  exact ⟨c, rfl, hw _ _ hc⟩

theorem files (h : h₁.Resembles v h₂) : h₁.files = h₂.files := by
  obtain ⟨c, rfl, -⟩ := h
  rfl

end Host.Resembles

namespace Action

variable {α β : Type}

/-- An action that comes to the same whatever a view does not show. -/
abbrev Heedless (v : Console.View) (act : Action α) : Prop := Relates (Host.Resembles v) act

/-- What is done with the host is heedless if it does not depend on the console. -/
theorem heedless_get_bind {f : Host → Action α} (hf : ∀ h, Heedless v (f h))
    (he : ∀ (h : Host) (c : Console), f { h with console := c } = f h) : Heedless v (get >>= f) := by
  refine relates_get_bind hf fun h₁ h₂ h => ?_
  obtain ⟨c, rfl, -⟩ := h
  exact (he h₁ c).symm

/-- A change of the host is heedless if it leaves the console alone. -/
theorem heedless_modify {f : Host → Host}
    (he : ∀ (h : Host) (c : Console), f { h with console := c } = { f h with console := c }) :
    Heedless v (modify f : Action Unit) := by
  refine relates_modify fun h₁ h₂ h => ?_
  obtain ⟨c, rfl, hc⟩ := h
  have hsame : f h₁ = { f h₁ with console := h₁.console } := he h₁ h₁.console
  refine ⟨c, he h₁ c, ?_⟩
  rwa [hsame]

theorem heedless_emit (e : Event) : Heedless v (emit e) := by
  refine relates_modify fun h₁ h₂ h => ?_
  obtain ⟨c, rfl, hc⟩ := h
  exact ⟨c.emit e, rfl, v.emit e hc⟩

theorem heedless_say (level : Level) (text : Text) : Heedless v (say level text) := heedless_emit _

theorem heedless_journalNow : Heedless v journalNow := by
  rintro h₁ h₂ ⟨c, rfl, hc⟩
  exact ⟨rfl, c, rfl, hc⟩

/-! ## Files -/

theorem heedless_call (path : Text) (f : FileSystem → CurrentDirectory → Except Errno α) :
    Heedless v (call path f) := by
  unfold call
  split
  · exact relates_fail _
  · exact heedless_get_bind (fun h => relates_ofCall _) fun _ _ => rfl

theorem heedless_change (path : Text)
    (f : FileSystem → CurrentDirectory → Except Errno FileSystem) : Heedless v (change path f) :=
  (heedless_call path f).bind fun _ => heedless_modify fun _ _ => rfl

theorem heedless_status? (path : Text) : Heedless v (status? path) := by
  unfold status?
  split
  · exact relates_pure _
  · refine heedless_get_bind (fun h => ?_) fun _ _ => rfl
    split
    · exact relates_pure _
    · exact relates_pure _
    · exact relates_pure _
    · exact relates_pure _
    · exact relates_fail _

theorem heedless_pathExists (path : Text) : Heedless v (pathExists path) :=
  (heedless_status? path).bind fun _ => relates_pure _

theorem heedless_isDirectory (path : Text) : Heedless v (isDirectory path) :=
  (heedless_status? path).bind fun _ => relates_pure _

theorem heedless_isFile (path : Text) : Heedless v (isFile path) := by
  refine (heedless_status? path).bind fun e => ?_
  split <;> exact relates_pure _

theorem heedless_readText (path : Text) : Heedless v (readText path) := by
  refine (heedless_call path _).bind fun bytes => ?_
  split
  · exact relates_pure _
  · exact relates_fail _

theorem heedless_ensureDirectory (path : Text) : Heedless v (ensureDirectory path) := by
  refine relates_rescue (heedless_change path _) fun f => ?_
  refine (heedless_isDirectory path).bind fun there => ?_
  cases there with
  | true => exact relates_pure ()
  | false => exact relates_fail f

theorem heedless_ensureDirectories (path : FilePath) : Heedless v (ensureDirectories path) := by
  unfold ensureDirectories
  induction path.names.reverse with
  | nil => exact heedless_ensureDirectory _
  | cons name above ih =>
    exact relates_rescue (heedless_ensureDirectory _) fun _ =>
      ih.bind fun _ => heedless_ensureDirectory _

theorem heedless_removeIfThere (path : Text) : Heedless v (removeIfThere path) :=
  relates_rescue (heedless_change path _) fun _ => relates_pure _

end Action

end ReplyLedger
