import ReplyLedger.Proofs.Ledger.Stored

/-!
# Starting tasks

Starting a task fails, takes up the task with the name, or creates one. `Desk.Started` says of each of
these what the answer is, which task is saved, which is the current one after it, and whether an id
has been taken; `Stored.start` says that it is always one of them.
-/

namespace ReplyLedger

open Ledger LedgerAction Json

/-! ## Descriptions -/

/-- A description that is given, as a new task keeps it. -/
theorem Ledger.ite_isEmpty_descriptionOf (description : Option Text) :
    (if (descriptionOf description).isEmpty then .text [] else descriptionOf description : Value) =
      .text (description.getD []) := by
  rcases description with _ | _ | ⟨c, text⟩ <;> rfl

theorem Ledger.isNamed_iff {t : Task} (h : t.name.IsText) {name : Text} :
    isNamed name t ↔ t.name = .text name := by
  obtain ⟨text, htext⟩ := h
  simp [isNamed, htext, Value.same]

namespace Task

/-- The task with a description, if it has none. -/
def described (t : Task) (given : Text) : Task :=
  { t with description := if t.description.isEmpty then .text given else t.description }

variable {t : Task} {description : Option Text}

theorem IsStorable.described (h : t.IsStorable) (given : Text) : (t.described given).IsStorable := by
  refine ⟨h.isId, h.isTextual.setDescription ?_⟩
  split
  · exact ⟨given, rfl⟩
  · exact h.isTextual.description

theorem eq_described_of_gains (t : Task)
    (h : (!(descriptionOf description).isEmpty && t.description.isEmpty) = true) :
    { t with description := descriptionOf description } = t.described (description.getD []) := by
  obtain ⟨hgiven, hnone⟩ := Bool.and_eq_true_iff.1 h
  rcases description with _ | text
  · exact nomatch hgiven
  · simp [described, hnone, descriptionOf]

theorem IsTextual.described_of_not_gains (ht : t.IsTextual)
    (h : ¬ (!(descriptionOf description).isEmpty && t.description.isEmpty) = true) :
    t.described (description.getD []) = t := by
  by_cases hnone : t.description.isEmpty
  · obtain ⟨text, htext⟩ := ht.description
    have hempty : text = [] := by simpa [htext, Value.isEmpty] using hnone
    have hgiven : description.getD [] = [] := by
      rcases description with _ | given
      · rfl
      · rw [hnone, Bool.and_true, Bool.not_eq_true', Bool.not_eq_false] at h
        exact List.isEmpty_iff.1 h
    rw [described, if_pos hnone, hgiven, ← hempty, ← htext]
  · simp [described, hnone]

/-- Whether nothing has been done for a task yet. -/
structure IsBlank (t : Task) : Prop where
  operations : t.operations = []
  status : t.status = .pending
  affected : t.affected = []
  included : t.included = []

end Task

/-! ## What starting a task comes to -/

namespace Desk

/-- No task with a name is held. -/
def Lacks (d : Location) (desk : Desk) (name : Text) : Prop :=
  ∀ t, Holds desk.host.files d t → t.name ≠ .text name

/-- A task is taken up again by its name, and saved if it gains a description. -/
structure Resumes (d : Location) (desk : Desk) (name : Text) (description : Option Text) (t : Task)
    (host : Host) : Prop where
  holds : Holds desk.host.files d t
  name_eq : t.name = .text name
  storable : (t.described (description.getD [])).IsStorable
  host_eq : t.described (description.getD []) = t ∧ host = desk.host ∨
    host = withRecord desk.host d (t.described (description.getD []))

/-- A blank task is created under a name that no other has, later than all others. -/
structure Creates (d : Location) (desk : Desk) (name : Text) (description : Option Text) (t : Task)
    (host : Host) : Prop where
  spared : desk.host.Spared host
  git_eq : host.git = desk.host.git
  storable : t.IsStorable
  blank : t.IsBlank
  id_eq : (outcome Action.newId desk.host).1 = .ok t.id
  ids_ne : host.ids ≠ desk.host.ids
  not_blank : Text.strip name ≠ []
  lacks : desk.Lacks d name
  name_eq : t.name = .text name
  description_eq : t.description = .text (description.getD [])
  latest : ∀ u, Holds desk.host.files d u → u.created.instant < t.created.instant

/-- What starting a task comes to: the answer, the task that is saved, the current task after it, and
the source of ids. -/
inductive Started (d : Location) (desk : Desk) (name : Text) (description : Option Text) :
    Except Failure Task → Option Task → Option Task → IdSource → Prop
  /-- The name is blank, or the calendar ends before a new task. -/
  | failed {f : Failure} {ids : IdSource} (lacks : Text.strip name = [] ∨ desk.Lacks d name) :
      Started d desk name description (.error f) none desk.ledger.current ids
  /-- The task with the name is taken up as it is. -/
  | resumed {t : Task} (holds : Holds desk.host.files d t) (name_eq : t.name = .text name)
      (unchanged : t.described (description.getD []) = t) :
      Started d desk name description (.ok t) none (some t) desk.host.ids
  /-- The task with the name is taken up, and saved with the description that it gains. -/
  | described {t : Task} (holds : Holds desk.host.files d t) (name_eq : t.name = .text name) :
      Started d desk name description (.ok (t.described (description.getD [])))
        (some (t.described (description.getD []))) (some (t.described (description.getD [])))
        desk.host.ids
  /-- A task is created, and saved. -/
  | created {t : Task} {host : Host} (creates : desk.Creates d name description t host) :
      Started d desk name description (.ok t) (some t) (some t) host.ids

variable {state : FilePath} {d : Location} {before desk : Desk} {saved current : Option Task}

/-! ## Starting -/

theorem isKept_creationTime {known : List Task} {now created : Timestamp}
    (hk : ∀ t ∈ known, t.IsStorable) (hn : Timestamp.IsKept now.offset)
    (hc : creationTime known now = .ok created) : Timestamp.IsKept created.offset := by
  unfold creationTime at hc
  split at hc
  · obtain rfl := Except.ok.inj hc
    exact hn
  · rename_i newest rest
    split at hc
    · split at hc
      · rename_i next hnext
        obtain rfl := Except.ok.inj hc
        exact (hk newest List.mem_cons_self).isTextual.created.next hnext
      · simp at hc
    · obtain rfl := Except.ok.inj hc
      exact hn

/-- With a new id and the time of the moment a task is created, unless the calendar ends. -/
theorem exists_creates (hsupplied : desk.host.IsSupplied) {tasks : List Task}
    (hmem : ∀ t, t ∈ tasks ↔ Holds desk.host.files d t) {name : Text}
    (hblank : Text.strip name ≠ []) (hlacks : desk.Lacks d name) (description : Option Text) :
    ∃ id now h₁ host, outcome Action.newId desk.host = (.ok id, h₁) ∧
      outcome Action.now h₁ = (.ok now, host) ∧ desk.host.Spared host ∧
      host.git = desk.host.git ∧
      ∀ created, creationTime (newestFirst tasks) now = .ok created → desk.Creates d name description
        ⟨id, .text name, .text (description.getD []), created, [], .pending, [], []⟩ host := by
  obtain ⟨id, h₁, hid, hspared₁, hisId⟩ := hsupplied.newId
  obtain ⟨now, host, hnow, hspared₂, hkept⟩ := (hsupplied.spared hspared₁).now
  have hspared := hspared₁.trans hspared₂
  have hgit : host.git = desk.host.git := by
    have hid' := Action.git_newId desk.host
    have hnow' := Action.git_now h₁
    rw [hid] at hid'
    rw [hnow] at hnow'
    exact hnow'.trans hid'
  refine ⟨id, now, h₁, host, hid, hnow, hspared, hgit, fun created hcreated => ?_⟩
  have hids : host.ids ≠ desk.host.ids := by
    have hne := Action.ids_newId_ne desk.host
    have hsame := Action.ids_now h₁
    rw [hid] at hne
    rw [hnow] at hsame
    exact hsame ▸ hne
  have hstorable : ∀ t ∈ newestFirst tasks, t.IsStorable :=
    fun t ht => ((hmem t).1 (mem_newestFirst.1 ht)).1
  have hoffset := isKept_creationTime hstorable hkept hcreated
  refine ⟨hspared, hgit, ?_, ⟨rfl, rfl, rfl, rfl⟩, by rw [hid], hids, hblank, hlacks, rfl, rfl,
    fun t ht => ?_⟩
  · exact ⟨hisId, ⟨name, rfl⟩, ⟨_, rfl⟩, hoffset, by simp, by simp, by simp⟩
  · exact instant_lt_creationTime hcreated ((hmem t).2 ht)

/-- Starting a task fails and leaves the files alone, or takes up one with the name whose record is
there, with the description that it may have gained, or creates one. -/
theorem Stored.start_cases (hd : Stored state d desk) (name : Text) (description : Option Text) :
    (∃ f host, desk.host.Spared host ∧ host.git = desk.host.git ∧
      (Text.strip name = [] ∨ desk.Lacks d name) ∧
      outcome (Ledger.start name (descriptionOf description)) desk = (.error f, { desk with host })) ∨
    (∃ t host text, desk.Resumes d name description t host ∧
      outcome (Ledger.start name (descriptionOf description)) desk = outcome (do
        (liftM (Action.say .debug text) : LedgerAction Unit)
        Ledger.setCurrent (some (t.described (description.getD [])))
        pure (t.described (description.getD []))) { desk with host }) ∨
    ∃ t host text, desk.Creates d name description t host ∧
      outcome (Ledger.start name (descriptionOf description)) desk = outcome (do
        (liftM (desk.ledger.save t) : LedgerAction Unit)
        Ledger.setCurrent (some t)
        (liftM (Action.say .debug text) : LedgerAction Unit)
        pure t) { desk with host } := by
  obtain ⟨tasks, -, hmem, hrecent⟩ := exists_listed hd.store hd.tasksDirectory
  have hknown : ∀ t, t ∈ newestFirst tasks ↔ Holds desk.host.files d t :=
    fun t => mem_newestFirst.trans (hmem t)
  rw [Ledger.start]
  by_cases hblank : Text.strip name = []
  · rw [if_pos hblank]
    exact .inl ⟨_, _, .refl _, rfl, .inl hblank, rfl⟩
  rw [if_neg hblank]
  dsimp only
  rw [outcome_bind_of_ok (outcome_ledger _), outcome_bind_of_ok (outcome_lift_of_eq (hrecent 0))]
  simp only [upTo, Int.lt_irrefl, if_false]
  split
  · rename_i t hfind
    have hholds := (hknown t).1 (List.mem_of_find?_eq_some hfind)
    have hname := (isNamed_iff hholds.1.isTextual.name).1 (List.find?_some hfind)
    have hdescribed := hholds.1.described (description.getD [])
    refine .inr (.inl ?_)
    by_cases hgains : !(descriptionOf description).isEmpty && t.description.isEmpty
    · have ht := t.eq_described_of_gains hgains
      simp only [hgains, if_true, ht]
      rw [outcome_bind_of_ok (outcome_lift_of_eq
        (outcome_save hd.store hd.tasksDirectory hdescribed))]
      exact ⟨t, _, _, ⟨hholds, hname, hdescribed, .inr rfl⟩, rfl⟩
    · have ht := hholds.1.isTextual.described_of_not_gains hgains
      simp only [hgains]
      refine ⟨t, desk.host, "Reusing task " ++ t.id ++ " (" ++ name ++ ")",
        ⟨hholds, hname, hdescribed, .inl ⟨ht, rfl⟩⟩, ?_⟩
      rw [ht]
      rfl
  · rename_i hfind
    have hlacks : desk.Lacks d name := fun t ht hname => by
      have hnot := List.find?_eq_none.1 hfind t ((hknown t).2 ht)
      exact hnot ((isNamed_iff ht.1.isTextual.name).2 hname)
    obtain ⟨id, now, h₁, h₂, hid, hnow, hspared, hgit, hcreates⟩ :=
      exists_creates hd.supplied hmem hblank hlacks description
    rw [outcome_bind_of_ok (outcome_lift_of_eq hid)]
    rw [outcome_bind_of_ok (outcome_lift_of_eq hnow)]
    rcases hcreated : creationTime (newestFirst tasks) now with f | created
    · exact .inl ⟨f, h₂, hspared, hgit, .inr hlacks, rfl⟩
    · refine .inr (.inr ⟨_, h₂, "Created task " ++ id ++ " (" ++ name ++ ")",
        hcreates created hcreated, ?_⟩)
      rw [← ite_isEmpty_descriptionOf description]
      rfl

section TakeUp

variable {t : Task}

/-- A task that is held becomes the current one after a message. -/
theorem Moves.say_setCurrent (h : Moves state d before saved current desk)
    (ht : Holds desk.host.files d t) (level : Level) (text : Text) :
    ∃ after, outcome (do
        (liftM (Action.say level text) : LedgerAction Unit)
        Ledger.setCurrent (some t)
        pure t) desk = (.ok t, after) ∧
      Moves state d before saved (some t) after ∧ after.host.ids = desk.host.ids ∧
      desk.Unasked after := by
  have hsaid := h.spared (Action.spares_say level text desk.host) desk.ledger.vcs
  obtain ⟨files, ho, hafter⟩ := hsaid.setCurrent fun u hu => Option.some.inj hu ▸ ht
  have hsay := outcome_lift_of_eq (Action.outcome_say level text desk.host)
  exact ⟨_, (outcome_bind_of_ok hsay).trans (outcome_bind_of_ok ho), hafter, rfl, rfl, rfl⟩

/-- A task that is held becomes the current one before a message. -/
theorem Moves.setCurrent_say (h : Moves state d before saved current desk)
    (ht : Holds desk.host.files d t) (level : Level) (text : Text) :
    ∃ after, outcome (do
        Ledger.setCurrent (some t)
        (liftM (Action.say level text) : LedgerAction Unit)
        pure t) desk = (.ok t, after) ∧
      Moves state d before saved (some t) after ∧ after.host.ids = desk.host.ids ∧
      desk.Unasked after := by
  obtain ⟨files, ho, hafter⟩ := h.setCurrent fun u hu => Option.some.inj hu ▸ ht
  rw [outcome_bind_of_ok ho,
    outcome_bind_of_ok (outcome_lift_of_eq (Action.outcome_say level text _))]
  exact ⟨_, rfl, hafter.spared (Action.spares_say level text _) desk.ledger.vcs, rfl, rfl, rfl⟩

end TakeUp

/-- **Starting a task fails, takes one up or creates one**, saves no other, and asks nothing of the
runner. -/
theorem Stored.start (hd : Stored state d desk) (name : Text) (description : Option Text) :
    ∃ result saved current after,
      outcome (Ledger.start name (descriptionOf description)) desk = (result, after) ∧
        desk.Started d name description result saved current after.host.ids ∧
        Moves state d desk saved current after ∧ desk.Unasked after := by
  rcases hd.start_cases name description with
    ⟨f, host, hh, hgit, hlacks, ho⟩ | ⟨t, host, text, ht, ho⟩ | ⟨t, host, text, ht, ho⟩
  · exact ⟨_, none, _, _, ho, .failed hlacks, hd.moves_refl.spared hh desk.ledger.vcs, rfl, hgit⟩
  · rcases ht.host_eq with ⟨hsame, rfl⟩ | rfl
    · rw [hsame] at ho
      obtain ⟨after, hup, hmoves, hids, hasked⟩ := hd.moves_refl.say_setCurrent ht.holds .debug text
      refine ⟨_, none, _, after, ho.trans hup, ?_, hmoves, hasked⟩
      rw [hids]
      exact .resumed ht.holds ht.name_eq hsame
    · have hsaved : Moves state d desk (some (t.described (description.getD [])))
          desk.ledger.current ⟨withRecord desk.host d _, desk.ledger⟩ :=
        hd.moves_refl.save ht.storable (.inl rfl)
      have hheld := recorded_withRecord hd.store ht.storable
      obtain ⟨after, hup, hmoves, hids, hasked⟩ :=
        hsaved.say_setCurrent ⟨ht.storable, hheld⟩ .debug text
      refine ⟨_, _, _, after, ho.trans hup, ?_, hmoves, hasked.vcs, hasked.git⟩
      rw [hids]
      exact .described ht.holds ht.name_eq
  · have hspared := hd.moves_refl.spared ht.spared desk.ledger.vcs
    have hsaved : Moves state d desk (some t) desk.ledger.current
        ⟨withRecord host d t, desk.ledger⟩ := hspared.save ht.storable (.inl rfl)
    have hheld := recorded_withRecord hspared.store ht.storable
    obtain ⟨after, hup, hmoves, hids, hasked⟩ :=
      hsaved.setCurrent_say ⟨ht.storable, hheld⟩ .debug text
    rw [outcome_bind_of_ok (outcome_lift_of_eq
      (outcome_save hspared.store hspared.tasksDirectory ht.storable))] at ho
    refine ⟨_, _, _, after, ho.trans hup, ?_, hmoves, hasked.vcs, hasked.git.trans ht.git_eq⟩
    have hsource : after.host.ids = host.ids := hids
    rw [hsource]
    exact .created ht

/-- What is answered is held, under the name. -/
theorem Started.holds {name : Text} {description : Option Text} {ids : IdSource} {t : Task}
    {after : Desk} (h : desk.Started d name description (.ok t) saved current ids)
    (hmoves : Moves state d desk saved current after) :
    Holds after.host.files d t ∧ t.name = .text name := by
  cases h with
  | resumed holds name_eq => exact ⟨hmoves.holds_iff.2 (.inr ⟨holds, nofun⟩), name_eq⟩
  | described holds name_eq => exact ⟨hmoves.holds_iff.2 (.inl rfl), name_eq⟩
  | created creates => exact ⟨hmoves.holds_iff.2 (.inl rfl), creates.name_eq⟩

end Desk

end ReplyLedger
