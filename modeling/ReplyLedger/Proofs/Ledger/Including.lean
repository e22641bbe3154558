import ReplyLedger.Ledger.Reply
import ReplyLedger.Proofs.Ledger.Coherence
import ReplyLedger.Proofs.Timestamp.Reading
import ReplyLedger.Proofs.Workspace.RelativePaths

/-!
# Context files

Files are added to the context of the current task by the paths that the user writes. Repetitions are
taken out three times on the way, within the call, against the task and while the rest is added; all
of this comes to one list (`outcome_addFiles_text`, `outcome_newFiles_addFiles`). It is all or nothing:
a path that has no path inside the workspace keeps all of them out (`outcome_mapM_relativePath`).

Saving the task adds at the most a file, so the paths come to the same afterwards, and adding the
same files again adds nothing (`includeFiles_exact`).
-/

namespace ReplyLedger

open FileSystem Json LedgerAction

/-! ## Lists without repetitions -/

section Repetitions

variable {α : Type} [BEq α] [LawfulBEq α]

/-- It does not matter whether members or repetitions are taken out first. -/
theorem filter_eraseDups (p : α → Bool) (l : List α) :
    l.eraseDups.filter p = (l.filter p).eraseDups := by
  induction hn : l.length using Nat.strongRecOn generalizing l with
  | _ n ih =>
    cases l with
    | nil => rfl
    | cons a l =>
      have hshort : (l.filter fun b => !b == a).length < n := by
        have hle := List.length_filter_le (fun b => !b == a) l
        rw [← hn, List.length_cons]
        omega
      have hrest := ih _ hshort _ rfl
      rw [List.eraseDups_cons, List.filter_cons, List.filter_cons, hrest, List.filter_filter]
      split
      · rw [List.eraseDups_cons, List.filter_filter]
        simp only [Bool.and_comm]
      · rename_i ha
        congr 1
        refine List.filter_congr fun b _ => ?_
        by_cases hb : b = a
        · rw [hb]
          simp [ha]
        · simp [hb]

theorem eraseDups_eraseDups (l : List α) : l.eraseDups.eraseDups = l.eraseDups := by
  induction hn : l.length using Nat.strongRecOn generalizing l with
  | _ n ih =>
    cases l with
    | nil => rfl
    | cons a l =>
      have hshort : (l.filter fun b => !b == a).length < n := by
        have hle := List.length_filter_le (fun b => !b == a) l
        rw [← hn, List.length_cons]
        omega
      have hrest := ih _ hshort _ rfl
      rw [List.eraseDups_cons, List.eraseDups_cons, filter_eraseDups, List.filter_filter]
      simp only [Bool.and_self]
      rw [hrest]

/-- What is taken out once is not there any more. -/
theorem removeAll_removeAll (l known : List α) :
    (l.removeAll known).removeAll known = l.removeAll known := by
  simp [List.removeAll, List.filter_filter]

end Repetitions

namespace Ledger

/-- The list without its repetitions has each member where it occurs first. -/
theorem firstOccurrences_eq_eraseDups (paths : List Text) :
    firstOccurrences paths = paths.eraseDups := by
  have hfrom (known : List Text) : paths.foldl
      (fun ps p => if ps.contains p then ps else ps ++ [p]) known =
        known ++ (paths.removeAll known).eraseDups := by
    induction paths generalizing known with
    | nil => simp [List.removeAll]
    | cons p paths ih =>
      rw [List.foldl_cons, ih, List.cons_removeAll]
      by_cases hp : p ∈ known
      · rw [if_pos (by simpa using hp), if_neg (by simpa using hp)]
      · have hrest : paths.removeAll (known ++ [p]) =
            (paths.removeAll known).filter fun b => !b == p := by
          rw [List.removeAll, List.removeAll, List.filter_filter]
          refine List.filter_congr fun b _ => ?_
          by_cases hb : b = p <;> simp [hb]
        rw [if_neg (by simpa using hp), if_pos (by simpa using hp), hrest, List.eraseDups_cons,
          List.append_assoc]
        rfl
  rw [firstOccurrences, hfrom, List.nil_append]
  simp [List.removeAll]

/-! ## The paths inside the workspace -/

section Paths

variable {ε α β : Type} {f : α → Except ε β}

theorem mapM_eq_ok_iff {items : List α} {results : List β} :
    items.mapM f = .ok results ↔ items.map f = results.map .ok := by
  induction items generalizing results with
  | nil => cases results <;> simp [pure, Except.pure]
  | cons a items ih =>
    rw [List.mapM_cons]
    rcases ha : f a with e | b
    · cases results <;> simp [bind, Except.bind, ha]
    · rcases hrest : items.mapM f with e | rest
      · cases results <;> simp [bind, Except.bind, ← ih, ha, hrest]
      · cases results <;> simp [bind, Except.bind, pure, Except.pure, ← ih, ha, hrest]

/-- What goes wrong for a list goes wrong for one of its items. -/
theorem exists_of_mapM_eq_error {items : List α} {e : ε} (h : items.mapM f = .error e) :
    ∃ a ∈ items, f a = .error e := by
  induction items with
  | nil => simp [pure, Except.pure] at h
  | cons a items ih =>
    rw [List.mapM_cons] at h
    rcases ha : f a with e' | b
    · simp only [ha, bind, Except.bind, Except.error.injEq] at h
      exact ⟨a, List.mem_cons_self, ha.trans (congrArg _ h)⟩
    · rcases hrest : items.mapM f with e' | rest
      · simp only [ha, hrest, bind, Except.bind, Except.error.injEq] at h
        obtain ⟨c, hc, hf⟩ := ih (h ▸ hrest)
        exact ⟨c, List.mem_cons_of_mem a hc, hf⟩
      · simp [ha, hrest, bind, Except.bind, pure, Except.pure] at h

end Paths

/-- The paths inside the workspace are found without changing anything, or one of them is not. -/
theorem outcome_mapM_relativePath (w : Workspace) (paths : List Text) (desk : Desk) :
    outcome (paths.mapM fun p => (liftM (w.relativePath p) : LedgerAction Text)) desk =
      (paths.mapM (w.relativePathFrom desk.host.files desk.host.cwd), desk) := by
  induction paths with
  | nil => rfl
  | cons p paths ih =>
    have hp : outcome (liftM (w.relativePath p) : LedgerAction Text) desk = _ :=
      outcome_lift_of_eq (w.outcome_relativePath p desk.host)
    rw [List.mapM_cons, List.mapM_cons]
    rcases hf : w.relativePathFrom desk.host.files desk.host.cwd p with f | relative
    · rw [hf] at hp
      rw [outcome_bind_of_error hp]
      rfl
    · rw [hf] at hp
      rw [outcome_bind_of_ok hp, outcome_bind, ih]
      rcases paths.mapM (w.relativePathFrom desk.host.files desk.host.cwd) with f | rest <;> rfl

/-! ## New files -/

variable {desk : Desk} {t : Task} {known : List Text} {state : FilePath} {d : Location}

/-- The task with more files in its context. -/
def including (t : Task) (new : List Text) : Task := { t with included := t.included ++ new.map .text }

/-- The files among `paths` that are not known, each where it occurs first. -/
def newAmong (known paths : List Text) : List Text := (paths.removeAll known).eraseDups

theorem outcome_newFiles_text (hc : desk.ledger.current = some t)
    (hi : t.included = known.map .text) (paths : List Text) :
    outcome (newFiles (paths.map .text)) desk = (.ok ((paths.removeAll known).map .text), desk) := by
  have hcompound : (t.included.any isCompound || (paths.map Value.text).any isCompound) = false := by
    rw [hi]
    simp [isCompound]
  have hfilter : (paths.map Value.text).filter (fun p => !p.isAmong t.included) =
      (paths.removeAll known).map .text := by
    rw [hi, List.filter_map, List.removeAll]
    refine congrArg _ (List.filter_congr fun p _ => ?_)
    have hamong : (Value.text p).isAmong (known.map .text) ↔ p ∈ known := by
      rw [Value.isAmong_text, List.mem_map_of_injective fun _ _ => Value.text.inj]
    by_cases hp : p ∈ known
    · simp [hamong.2 hp, hp]
    · have hnot : (Value.text p).isAmong (known.map .text) = false := by
        rw [← Bool.not_eq_true]
        exact fun h => hp (hamong.1 h)
      simp [hnot, hp]
  rw [newFiles, outcome_bind_of_ok (outcome_currentTask desk), hc]
  simp only [hcompound, Bool.false_eq_true, if_false, hfilter]
  rfl

/-- The files that are new are added to the task, and the task is saved; if none is new, nothing is
done. -/
theorem outcome_addFiles_text (hs : Store desk.host.files desk.host.cwd state d)
    (hl : desk.ledger.tasksDirectory = state.child tasksName) (ht : t.IsStorable)
    (hc : desk.ledger.current = some t) (hi : t.included = known.map .text) (paths : List Text) :
    outcome (addFiles (paths.map .text)) desk =
      (.ok ((newAmong known paths).map .text),
        if newAmong known paths = [] then desk
        else ⟨withRecord desk.host d (including t (newAmong known paths)),
          { desk.ledger with current := some (including t (newAmong known paths)) }⟩) := by
  have hadded : Task.additions t.included (paths.map .text) = (newAmong known paths).map .text := by
    rw [hi, Task.additions_text, newAmong]
  have hneed : outcome needCurrent desk = (.ok t, desk) := by
    rw [outcome_needCurrent, hc]
  have hstorable := ht.addFiles paths
  have htask : t.addFiles (paths.map .text) = including t (newAmong known paths) := by
    rw [Task.addFiles, Task.union, hadded, including]
  rw [htask] at hstorable
  rw [addFiles, outcome_bind_of_ok hneed]
  dsimp only
  rw [hadded]
  by_cases hnew : newAmong known paths = []
  · rw [hnew]
    rfl
  · have hsave := hs.outcome_saveCurrent hl hstorable
    rw [if_pos (by simpa using hnew), if_neg hnew]
    exact outcome_bind_of_ok hsave

/-- It does not matter whether the files that are not new are left out before. -/
theorem outcome_newFiles_addFiles (hs : Store desk.host.files desk.host.cwd state d)
    (hl : desk.ledger.tasksDirectory = state.child tasksName) (ht : t.IsStorable)
    (hc : desk.ledger.current = some t) (hi : t.included = known.map .text) (paths : List Text) :
    outcome (newFiles (paths.map .text) >>= addFiles) desk =
      outcome (addFiles (paths.map .text)) desk := by
  have hsame : newAmong known (paths.removeAll known) = newAmong known paths := by
    rw [newAmong, newAmong, removeAll_removeAll]
  rw [outcome_bind_of_ok (outcome_newFiles_text hc hi paths), outcome_addFiles_text hs hl ht hc hi,
    outcome_addFiles_text hs hl ht hc hi, hsame]

/-- Files are included by their paths inside the workspace. -/
theorem outcome_includeFiles (hs : Store desk.host.files desk.host.cwd state d)
    (hl : desk.ledger.tasksDirectory = state.child tasksName) (ht : t.IsStorable)
    (hc : desk.ledger.current = some t) (hi : t.included = known.map .text) {w : Workspace}
    {paths relative : List Text}
    (hr : paths.mapM (w.relativePathFrom desk.host.files desk.host.cwd) = .ok relative) :
    outcome (includeFiles w paths) desk = outcome (addFiles (relative.map .text)) desk := by
  have hmap := outcome_mapM_relativePath w paths desk
  have hsame : newAmong known (firstOccurrences relative) = newAmong known relative := by
    rw [newAmong, newAmong, firstOccurrences_eq_eraseDups, List.removeAll, filter_eraseDups,
      eraseDups_eraseDups, List.removeAll]
  rw [hr] at hmap
  rw [includeFiles, outcome_bind_of_ok hmap, outcome_newFiles_addFiles hs hl ht hc hi,
    outcome_addFiles_text hs hl ht hc hi, outcome_addFiles_text hs hl ht hc hi, hsame]

/-- Nothing is new among files that have been included. -/
theorem newAmong_append (known paths : List Text) :
    newAmong (known ++ newAmong known paths) paths = [] := by
  have hnone : paths.removeAll (known ++ newAmong known paths) = [] := by
    refine List.filter_eq_nil_iff.2 fun p hp => ?_
    by_cases hk : p ∈ known <;> simp [newAmong, List.removeAll, hk, hp]
  rw [newAmong, hnone]
  rfl

/-- The paths inside the workspace stay the same when a task is saved. -/
theorem relativePathFrom_withRecord {host : Host} (hs : Store host.files host.cwd state d)
    (ht : t.IsStorable) (w : Workspace) :
    w.relativePathFrom (withRecord host d t).files host.cwd =
      w.relativePathFrom host.files host.cwd := by
  funext path
  refine Workspace.relativePathFrom_of_keeps (keeps_put fun e he => ?_) (fun r e he hfile => ?_) w _ _
  · obtain ⟨u, -, -, rfl⟩ := hs.records _ e he
    exact ⟨_, rfl⟩
  · have hentry := entryAt_withRecord hs ht r
    rw [withRecord, he] at hentry
    split at hentry
    · exact absurd (Option.some.inj hentry) (hfile _)
    · exact hentry.symm

/-- A path that has no path inside the workspace keeps all of them out. -/
theorem exists_outcome_includeFiles_error (w : Workspace) (desk : Desk) {paths : List Text}
    {p : Text} (hmem : p ∈ paths) {f : Failure}
    (hfail : w.relativePathFrom desk.host.files desk.host.cwd p = .error f) :
    ∃ q ∈ paths, ∃ g, w.relativePathFrom desk.host.files desk.host.cwd q = .error g ∧
      outcome (includeFiles w paths) desk = (.error g, desk) := by
  have hmap := outcome_mapM_relativePath w paths desk
  rcases hr : paths.mapM (w.relativePathFrom desk.host.files desk.host.cwd) with g | relative
  · obtain ⟨q, hq, hg⟩ := exists_of_mapM_eq_error hr
    rw [hr] at hmap
    exact ⟨q, hq, g, hg, outcome_bind_of_error hmap⟩
  · have hin := List.mem_map_of_mem (f := w.relativePathFrom desk.host.files desk.host.cwd) hmem
    rw [mapM_eq_ok_iff.1 hr, hfail] at hin
    obtain ⟨_, -, hok⟩ := List.mem_map.1 hin
    cases hok

/-- Files that have been included are not new when they are included again. -/
theorem outcome_includeFiles_including (hs : Store desk.host.files desk.host.cwd state d)
    (hl : desk.ledger.tasksDirectory = state.child tasksName) (hi : t.included = known.map .text)
    {w : Workspace} {paths relative : List Text}
    (hr : paths.mapM (w.relativePathFrom desk.host.files desk.host.cwd) = .ok relative)
    (ht : (including t (newAmong known relative)).IsStorable) :
    let after : Desk := ⟨withRecord desk.host d (including t (newAmong known relative)),
      { desk.ledger with current := some (including t (newAmong known relative)) }⟩
    outcome (includeFiles w paths) after = (.ok [], after) := by
  intro after
  have hs' : Store after.host.files after.host.cwd state d := hs.save ht
  have hmore : (including t (newAmong known relative)).included =
      (known ++ newAmong known relative).map .text := by
    rw [including, hi, List.map_append]
  have hagain : paths.mapM (w.relativePathFrom after.host.files after.host.cwd) = .ok relative := by
    rw [← hr]
    exact congrArg paths.mapM (relativePathFrom_withRecord hs ht w)
  rw [outcome_includeFiles hs' hl ht rfl hmore hagain, outcome_addFiles_text hs' hl ht rfl hmore,
    newAmong_append]
  rfl

end Ledger

theorem Json.Value.exists_texts {vs : List Value} (h : ∀ v ∈ vs, v.IsText) :
    ∃ ts : List Text, vs = ts.map .text := by
  induction vs with
  | nil => exact ⟨[], rfl⟩
  | cons v vs ih =>
    obtain ⟨⟨t, rfl⟩, hvs⟩ := List.forall_mem_cons.1 h
    obtain ⟨ts, rfl⟩ := ih hvs
    exact ⟨t :: ts, rfl⟩

/-! ## Runs -/

namespace Session

open Ledger

variable {h : Host} {state : FilePath} {d : Location} {pointer : Option FilePath}

/-- **Adding context files is exact, repeatable, and all or nothing.** A ledger is opened in an empty
state directory, and steps are taken on it, after which it has a current task; the host may be any on
which its state directory is in order. If one of the paths has no path inside the workspace, adding
them fails for such a path, and nothing is changed. Otherwise those of the paths inside the workspace
are answered that the task does not know, each where it occurs first. They are added to the task, in
memory and on the disk; if there are none, nothing is changed. Adding the same files again adds nothing
and changes nothing. And for any texts it does not matter whether those that are not new are left out
before the rest is added. -/
theorem includeFiles_exact (hf : h.IsFresh state d) (vcs : Vcs)
    (hp : ∀ p, pointer = some p → p = state.child pointerName)
    {history : List (Session × Ledger.Step)} {last : Session}
    (hrun : Run (fun _ step => step.NamesTask) (opened h state d vcs pointer) history last)
    {t : Task} (hcurrent : last.desk.ledger.current = some t) (host : Host)
    (hs : Store host.files host.cwd state d) (w : Workspace) (paths : List Text) :
    let desk : Desk := ⟨host, last.desk.ledger⟩
    (∀ p ∈ paths, ∀ f, (outcome (w.relativePath p) host).1 = .error f →
      ∃ q ∈ paths, ∃ g, (outcome (w.relativePath q) host).1 = .error g ∧
        outcome (includeFiles w paths) desk = (.error g, desk)) ∧
    (∀ relative : List Text,
      paths.map (fun p => (outcome (w.relativePath p) host).1) = relative.map .ok →
      ∃ (known new : List Text) (after : Desk), t.included = known.map .text ∧
        new = (relative.removeAll known).eraseDups ∧
        outcome (includeFiles w paths) desk = (.ok (new.map .text), after) ∧
        after.ledger.current = some { t with included := t.included ++ new.map .text } ∧
        (Recorded host.files d t →
          Recorded after.host.files d { t with included := t.included ++ new.map .text }) ∧
        (new ≠ [] →
          Recorded after.host.files d { t with included := t.included ++ new.map .text } ∧
          outcome (after.ledger.find t.id) after.host =
            (.ok { t with included := t.included ++ new.map .text }, after.host)) ∧
        (new = [] → after = desk) ∧
        outcome (includeFiles w paths) after = (.ok [], after)) ∧
    ∀ texts : List Text, outcome (newFiles (texts.map .text) >>= addFiles) desk =
      outcome (addFiles (texts.map .text)) desk := by
  intro desk
  have hlast := hrun.coherent (fun _ _ hn => hn) (coherent_opened hf vcs hp)
  have ht := hlast.desk.inMemory t hcurrent
  obtain ⟨known, hknown⟩ := Value.exists_texts ht.isTextual.included
  have hl : desk.ledger.tasksDirectory = state.child tasksName := hlast.desk.tasksDirectory
  have hpaths (p : Text) : (outcome (w.relativePath p) host).1 =
      w.relativePathFrom host.files host.cwd p := by rw [w.outcome_relativePath]
  simp only [hpaths]
  refine ⟨fun p hmem f hfail => exists_outcome_includeFiles_error w desk hmem hfail,
    fun relative hrelative => ?_, outcome_newFiles_addFiles hs hl ht hcurrent hknown⟩
  have hr := mapM_eq_ok_iff.2 hrelative
  have ho := outcome_includeFiles hs hl ht hcurrent hknown hr
  rw [outcome_addFiles_text hs hl ht hcurrent hknown] at ho
  by_cases hnew : newAmong known relative = []
  · rw [if_pos hnew, hnew] at ho
    refine ⟨known, [], desk, hknown, hnew.symm, ho, ?_, ?_, fun h => absurd rfl h, fun _ => rfl, ho⟩
    · rw [List.map_nil, List.append_nil]
      exact hcurrent
    · rw [List.map_nil, List.append_nil]
      exact id
  · rw [if_neg hnew] at ho
    have hstorable : (including t (newAmong known relative)).IsStorable := by
      have hadded := ht.addFiles relative
      rwa [Task.addFiles, Task.union, hknown, Task.additions_text, ← hknown] at hadded
    have hrecorded := recorded_withRecord (h := host) hs hstorable
    exact ⟨known, _, _, hknown, rfl, ho, rfl, fun _ => hrecorded, fun _ => ⟨hrecorded,
      outcome_find_of_recorded (hs.save hstorable) hl hstorable hrecorded⟩, fun h => absurd h hnew,
      outcome_includeFiles_including hs hl hknown hr hstorable⟩

/-! ### Several paths of one file -/

/-- A task is started, and gains a file. -/
def includingSteps : List Ledger.Step := [.start ['A'] none, .addFiles [['a']]]

/-- A known file, one that is new by two of its paths, and one through a link; and then a path outside
the workspace. -/
theorem includeFiles_exact_linkedStateHost :
    let state := FilePath.ofText ['l']
    let start := opened linkedStateHost state [['h'], ['s']] (.noting [] []) none
    let last := (play includingSteps start).2
    let w : Workspace := ⟨[['h']]⟩
    let paths : List Text := ["h/a", "/h/b", "h/s/../b", "l/n"]
    linkedStateHost.IsFresh state [['h'], ['s']] ∧
      Run (fun _ step => step.NamesTask) start (trace includingSteps start) last ∧
      Store last.desk.host.files last.desk.host.cwd state [['h'], ['s']] ∧
      ∃ t, last.desk.ledger.current = some t ∧ t.included = [.text ['a']] ∧
        (∃ after, outcome (includeFiles w paths) last.desk =
            (.ok [.text ['b'], .text "s/n"], after) ∧
          Recorded after.host.files [['h'], ['s']]
            { t with included := t.included ++ [.text ['b'], .text "s/n"] } ∧
          outcome (includeFiles w paths) after = (.ok [], after)) ∧
        ∃ f, outcome (includeFiles w (paths ++ [['/']])) last.desk = (.error f, last.desk) := by
  intro state start last w paths
  have hp : ∀ p, none = some p → p = state.child pointerName := nofun
  have hnames : ∀ step ∈ includingSteps, step.NamesTask := by
    simp [includingSteps, Ledger.Step.NamesTask]
  have hrun : Run (fun _ step => step.NamesTask) start (trace includingSteps start) last :=
    run_play fun x hx => hnames x.2 (mem_of_mem_trace hx)
  have hs : Store last.desk.host.files last.desk.host.cwd state [['h'], ['s']] :=
    (hrun.coherent (fun _ _ hn => hn) (coherent_opened isFresh_linkedStateHost _ hp)).desk.store
  have hfiles : last.desk.ledger.current.map (fun t => t.included.map Value.plain) =
      some [['a']] := by decide +kernel
  obtain ⟨t, hcurrent, hplain⟩ := Option.map_eq_some_iff.1 hfiles
  have hall := fun more => includeFiles_exact isFresh_linkedStateHost _ hp hrun hcurrent
    last.desk.host hs w more
  have hok {p r : Text} (h : (outcome (w.relativePath p) last.desk.host).1.toOption = some r) :
      (outcome (w.relativePath p) last.desk.host).1 = .ok r := eq_ok_of_toOption h
  have hrelative : paths.map (fun p => (outcome (w.relativePath p) last.desk.host).1) =
      [['a'], ['b'], ['b'], "s/n".toList].map .ok := by
    simp only [paths, List.map_cons, List.map_nil]
    rw [hok (r := ['a']) (by decide +kernel), hok (r := ['b']) (by decide +kernel),
      hok (r := ['b']) (by decide +kernel), hok (r := "s/n".toList) (by decide +kernel)]
  have houtside : ∃ f, (outcome (w.relativePath ['/']) last.desk.host).1 = .error f := by
    have hnone : (outcome (w.relativePath ['/']) last.desk.host).1.toOption = none := by
      decide +kernel
    rcases ho : (outcome (w.relativePath ['/']) last.desk.host).1 with f | r
    · exact ⟨f, rfl⟩
    · simp [ho, Except.toOption] at hnone
  obtain ⟨g, hg⟩ := houtside
  obtain ⟨known, new, after, hknown, rfl, ho, -, -, hrecorded, -, hagain⟩ :=
    (hall paths).2.1 _ hrelative
  obtain rfl : known = [['a']] := by
    rw [hknown, List.map_map] at hplain
    simpa [Function.comp_def, Value.plain] using hplain
  obtain ⟨-, -, f, -, hfail⟩ := (hall (paths ++ [['/']])).1 ['/'] (by simp) g hg
  refine ⟨isFresh_linkedStateHost, hrun, hs, t, hcurrent, hknown, ⟨after, ho, ?_, hagain⟩, f, hfail⟩
  exact (hrecorded (by decide)).1

end Session

end ReplyLedger
