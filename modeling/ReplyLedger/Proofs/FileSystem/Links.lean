import ReplyLedger.Proofs.FileSystem.Lookup
import ReplyLedger.Proofs.FileSystem.Resolution

/-!
# Resolution depends on the links

Two file systems with the same links (`SameLinks`) resolve every path in the same way
(`resolution_congr`): what else stands on the way does not matter. The path that is found is made of
plain names, also where a link had to be left in place (`isPlain_of_resolve`), so it is found again
wherever it is settled (`resolve_of_settled`).
-/

namespace ReplyLedger.FileSystem

variable {fs gs : FileSystem}

/-- The same links stand at the same locations. -/
def SameLinks (fs gs : FileSystem) : Prop :=
  ∀ p target, fs.entryAt p = some (.link target) ↔ gs.entryAt p = some (.link target)

theorem SameLinks.symm (h : fs.SameLinks gs) : gs.SameLinks fs := fun p target => (h p target).symm

/-! ## The same links, the same ways -/

theorem Step.congr (h : fs.SameLinks gs) {w v : Way} (hs : fs.Step w v) : gs.Step w v := by
  cases hs with
  | stay hs => exact .stay hs
  | up => exact .up
  | down hp hn => exact .down hp fun target ht => hn target ((h _ target).2 ht)
  | link hl => exact .link ((h _ _).1 hl)

theorem LeadsTo.congr (h : fs.SameLinks gs) {w : Way} {p : Location} (hw : fs.LeadsTo w p) :
    gs.LeadsTo w p := by
  obtain ⟨here, s, hsteps, rfl⟩ := hw
  exact ⟨here, s, Relation.ReflTransGen.mono (fun _ _ => Step.congr h) _ _ hsteps, rfl⟩

/-! ## The same links, the same resolution -/

theorem SameLinks.linkCount_le (h : fs.SameLinks gs) : fs.linkCount ≤ gs.linkCount := by
  have hn : ((fs.entries.filter isLink).map Prod.fst).Nodup :=
    (List.filter_sublist.map _).nodup fs.isTree.nodup
  have hlinks : ∀ link ∈ (fs.entries.filter isLink).map Prod.fst,
      ∃ target, gs.entryAt link = some (.link target) ∧ link ≠ [] := by
    intro link hlink
    obtain ⟨⟨p, e⟩, hx, rfl⟩ := List.mem_map.1 hlink
    obtain ⟨hx, hl⟩ := List.mem_filter.1 hx
    cases e with
    | link target => exact ⟨target, (h p target).1 (entryAt_of_mem hx), fs.isTree.ne_root _ hx⟩
    | directory => simp [isLink] at hl
    | file bytes => simp [isLink] at hl
  rw [linkCount_eq_length]
  exact length_le_linkCount hn hlinks

theorem SameLinks.linkCount_eq (h : fs.SameLinks gs) : fs.linkCount = gs.linkCount :=
  Nat.le_antisymm h.linkCount_le h.symm.linkCount_le

/-- Following looks at links only. -/
theorem follow_congr (h : fs.SameLinks gs) (enter : Entered → Location → Text → Resolution)
    (entered : Entered) (here : Location) (segments : List Text) :
    fs.follow enter entered here segments = gs.follow enter entered here segments := by
  induction segments generalizing entered here with
  | nil => rfl
  | cons s rest ih =>
    rw [follow, follow]
    simp only [ih]
    by_cases hl : ∃ target, fs.entryAt (here ++ [s]) = some (.link target)
    · obtain ⟨target, hl⟩ := hl
      rw [hl, (h _ _).1 hl]
    · have hl' : ¬ ∃ target, gs.entryAt (here ++ [s]) = some (.link target) := by
        rintro ⟨target, ht⟩
        exact hl ⟨target, (h _ _).2 ht⟩
      split
      · rfl
      · split
        · rfl
        · split
          · rfl
          · split
            · rename_i target ht
              exact absurd ⟨target, ht⟩ hl
            · split
              · rename_i target ht
                exact absurd ⟨target, ht⟩ hl'
              · rfl

theorem resolveFrom_congr (h : fs.SameLinks gs) (depth : Nat) (entered : Entered) (here : Location)
    (segments : List Text) :
    fs.resolveFrom depth entered here segments = gs.resolveFrom depth entered here segments := by
  induction depth generalizing entered here segments with
  | zero => exact follow_congr h _ entered here segments
  | succ depth ih =>
    rw [resolveFrom, resolveFrom]
    simp only [ih]
    exact follow_congr h _ entered here segments

/-- **Where the same links are, paths are resolved in the same way.** -/
theorem resolution_congr (h : fs.SameLinks gs) (segments : List Text) :
    fs.resolution segments = gs.resolution segments := by
  rw [resolution, resolution, h.linkCount_eq, resolveFrom_congr h]

/-! ## The names of what is found -/

/-- A segment of a written path that goes down. -/
def GoesDown (s : Text) : Prop := s ≠ [] ∧ s ≠ ['.'] ∧ s ≠ ['.', '.'] ∧ '/' ∉ s

theorem goesDown_of_isPlain {s : Text} (h : isPlain s) : GoesDown s := by
  obtain ⟨h0, h1, h2, h3, -⟩ := isPlain_iff.1 h
  exact ⟨h0, h1, h2, h3⟩

theorem isPlain_of_goesDown {s : Text} (h : GoesDown s) (hn : hasNul s = false) : isPlain s :=
  isPlain_iff.2 ⟨h.1, h.2.1, h.2.2.1, h.2.2.2, hn⟩

/-- What is read without a look at the files goes down, if it begins so. -/
theorem goesDown_readPlainFrom {here : Location} (hh : ∀ s ∈ here, GoesDown s)
    {segments : List Text} (hs : ∀ s ∈ segments, '/' ∉ s) :
    ∀ s ∈ readPlainFrom here segments, GoesDown s := by
  induction segments generalizing here with
  | nil => exact hh
  | cons u rest ih =>
    have hrest : ∀ s ∈ rest, '/' ∉ s := fun s h => hs s (List.mem_cons_of_mem u h)
    rw [readPlainFrom]
    split
    · exact ih hh hrest
    · rename_i h01
      split
      · exact ih (fun s h => hh s (List.dropLast_subset here h)) hrest
      · rename_i h2
        refine ih (fun s h => ?_) hrest
        rcases List.mem_append.1 h with h | h
        · exact hh s h
        · rw [List.mem_singleton.1 h]
          simp only [Bool.or_eq_true, decide_eq_true_eq, not_or] at h01
          exact ⟨h01.1, h01.2, h2, hs u List.mem_cons_self⟩

theorem goesDown_readPlain {path : FilePath} (hp : ∀ s ∈ path.names, GoesDown s)
    {rest : List Text} (hs : ∀ s ∈ rest, '/' ∉ s) :
    ∀ s ∈ (readPlain path rest).names, GoesDown s := by
  rw [readPlain]
  split
  · exact goesDown_readPlainFrom hp hs
  · exact goesDown_readPlainFrom (by simp) hs

/-- A path that is left at a link goes down. -/
theorem goesDown_of_follow {enter : Entered → Location → Text → Resolution}
    (harrive : ∀ {entered here s target p entered'}, fs.Known entered → fs.Settled here →
      enter entered (here ++ [s]) target = .resolved p entered' →
        fs.Arrival entered (wayOf here target) p entered')
    (hstuck : ∀ {entered here s target path}, fs.Known entered → fs.Settled here → isPlain s →
      enter entered (here ++ [s]) target = .stuck path → ∀ s ∈ path.names, GoesDown s)
    {segments : List Text} (hs : ∀ s ∈ segments, '/' ∉ s) {entered : Entered}
    (hk : fs.Known entered) {here : Location} (hh : fs.Settled here) {path : FilePath}
    (h : fs.follow enter entered here segments = .stuck path) :
    ∀ s ∈ path.names, GoesDown s := by
  induction segments generalizing entered here with
  | nil => simp [follow] at h
  | cons s rest ih =>
    have hrest : ∀ u ∈ rest, '/' ∉ u := fun u hu => hs u (List.mem_cons_of_mem s hu)
    rcases segment_cases (hs s List.mem_cons_self) with h0 | rfl | hp | ⟨h0, h2, h4⟩
    · rw [follow_stay h0] at h
      exact ih hrest hk hh h
    · rw [follow_up] at h
      exact ih hrest hk hh.dropLast h
    · by_cases hl : ∃ target, fs.entryAt (here ++ [s]) = some (.link target)
      · obtain ⟨target, hl⟩ := hl
        rw [follow_link hp hl] at h
        rcases ho : entered.lookup (here ++ [s]) with _ | _ | q
        · simp only [ho] at h
          split at h
          · rename_i q entered₁ he
            have a := harrive (hk.cons_none (here ++ [s])) hh he
            exact ih hrest (a.known.cons_some hl a.settled a.steps) a.settled h
          · rename_i path' he
            obtain rfl := Resolution.stuck.inj h
            exact goesDown_readPlain (hstuck (hk.cons_none (here ++ [s])) hh hp he) hrest
          · simp at h
        · simp only [ho] at h
          obtain rfl := Resolution.stuck.inj h
          refine goesDown_readPlain (fun u hu => ?_) hrest
          rcases List.mem_append.1 hu with hu | hu
          · exact goesDown_of_isPlain (hh.isPlain u hu)
          · exact goesDown_of_isPlain (List.mem_singleton.1 hu ▸ hp)
        · simp only [ho] at h
          exact ih hrest hk (hk _ q ho).1 h
      · have hn : ∀ target, fs.entryAt (here ++ [s]) ≠ some (.link target) := not_exists.1 hl
        rw [follow_down hp hn] at h
        exact ih hrest hk (hh.snoc hp hn) h
    · rw [follow_badName h0 h2 h4] at h
      simp at h

theorem goesDown_of_resolveFrom (depth : Nat) {segments : List Text}
    (hs : ∀ s ∈ segments, '/' ∉ s) {entered : Entered} (hk : fs.Known entered) {here : Location}
    (hh : fs.Settled here) {path : FilePath}
    (h : fs.resolveFrom depth entered here segments = .stuck path) :
    ∀ s ∈ path.names, GoesDown s := by
  induction depth generalizing segments entered here path with
  | zero =>
    refine goesDown_of_follow (fun _ _ he => by simp at he) ?_ hs hk hh h
    intro entered here s target path _ hh hp he u hu
    obtain rfl := Resolution.stuck.inj he
    rcases List.mem_append.1 hu with hu | hu
    · exact goesDown_of_isPlain (hh.isPlain u hu)
    · exact goesDown_of_isPlain (List.mem_singleton.1 hu ▸ hp)
  | succ depth ih =>
    have start {here : Location} (hh : fs.Settled here) (target : Text) :
        fs.Settled (if isRooted target then [] else here) := by
      split
      · exact .nil fs
      · exact hh
    refine goesDown_of_follow ?_ ?_ hs hk hh h
    · intro entered here s target p entered' hk hh he
      rw [List.dropLast_concat] at he
      exact arrival_of_resolveFrom depth (fun s hs => not_mem_segmentsOf hs) hk (start hh target) he
    · intro entered here s target path hk hh _ he
      rw [List.dropLast_concat] at he
      exact ih (fun s hs => not_mem_segmentsOf hs) hk (start hh target) he

/-- A path is accepted as it is. -/
theorem settle_eq_ok {path found : FilePath} (h : fs.settle path = .ok found) :
    found = path ∧ ∀ s ∈ path.names, hasNul s = false := by
  unfold settle at h
  split at h
  · simp at h
  · rename_i hn
    split at h
    · simp at h
    · exact ⟨(Except.ok.inj h).symm, by simpa using hn⟩

/-- **The path that is found is made of plain names.** -/
theorem isPlain_of_resolve {segments : List Text} (hs : ∀ s ∈ segments, '/' ∉ s)
    {found : FilePath} (h : fs.resolve segments = .ok found) : ∀ s ∈ found.names, isPlain s := by
  unfold resolve at h
  split at h
  · rename_i p entered hr
    obtain ⟨rfl, -⟩ := settle_eq_ok h
    exact (resolution_eq_resolved hs hr).2.isPlain
  · rename_i path hr
    obtain ⟨rfl, hn⟩ := settle_eq_ok h
    have hk : fs.Known [] := fun link p hp => by simp at hp
    have hdown := goesDown_of_resolveFrom fs.linkCount hs hk (.nil fs) hr
    exact fun s hs => isPlain_of_goesDown (hdown s hs) (hn s hs)
  · simp at h

/-! ## Settled paths are found again -/

/-- Looking up names one after the other is not refused because of links. -/
theorem advance_ne_tooManyLinks (last : LastName) (here : Location) (segments : List Text) :
    fs.advance last here segments ≠ .refused .tooManyLinks := by
  induction segments generalizing here with
  | nil => simp [advance]
  | cons s rest ih =>
    rw [advance]
    split
    · exact ih here
    · split
      · exact ih here.dropLast
      · split
        · simp
        · split
          · simp
          · split
            · split <;> simp
            · exact ih (here ++ [s])
            · split <;> simp
            · split <;> simp

/-- On the way to a settled location no link is met. -/
theorem advance_ne_atLink {last : LastName} {segments : List Text} {here : Location}
    (hs : fs.Settled (here ++ segments)) {directory : Location} {target : Text}
    {rest : List Text} : fs.advance last here segments ≠ .atLink directory target rest := by
  induction segments generalizing here with
  | nil => simp [advance]
  | cons s rest' ih =>
    obtain ⟨h0, h1, h2, -, -⟩ := isPlain_iff.1 (hs.isPlain s (by simp))
    have hnext : here ++ [s] ++ rest' = here ++ s :: rest' := by simp
    rw [advance, if_neg (by simp [h0, h1]), if_neg h2]
    split
    · simp
    · split
      · simp
      · split
        · split <;> simp
        · exact ih (hnext ▸ hs)
        · split <;> simp
        · rename_i target' hl
          exact absurd hl (hs.not_link _ target' ⟨rest', hnext⟩)

theorem walk_ne_tooManyLinks {last : LastName} {links : Nat} {p : Location} (hp : fs.Settled p) :
    fs.walk last links [] p ≠ .error .tooManyLinks := by
  rw [walk]
  rcases hadv : fs.advance last [] p with found | error | ⟨directory, target, rest⟩
  · simp
  · have hne : fs.advance last [] p ≠ _ := advance_ne_tooManyLinks last [] p
    rw [hadv] at hne
    simpa using hne
  · exact absurd hadv (advance_ne_atLink (by simpa using hp))

/-- A path to a settled location is accepted. -/
theorem settle_of_settled {path : FilePath} (hp : fs.Settled path.names) :
    fs.settle path = .ok path := by
  have hn : path.names.any hasNul = false := by
    rw [List.any_eq_false]
    intro s hs
    simp [(isPlain_iff.1 (hp.isPlain s hs)).2.2.2.2]
  rw [settle, hn, if_neg Bool.false_ne_true]
  split
  · rename_i hw
    exact absurd hw (walk_ne_tooManyLinks hp)
  · rfl

/-- **What is found in one file system is found in every other with the same links**, if it is
settled there. -/
theorem resolve_of_settled (h : fs.SameLinks gs) {segments : List Text} {found : FilePath}
    (hf : fs.resolve segments = .ok found) (hs : gs.Settled found.names) :
    gs.resolve segments = .ok found := by
  unfold resolve at hf ⊢
  rw [← resolution_congr h]
  split at hf
  · obtain ⟨rfl, -⟩ := settle_eq_ok hf
    exact settle_of_settled hs
  · obtain ⟨rfl, -⟩ := settle_eq_ok hf
    exact settle_of_settled hs
  · simp at hf

end ReplyLedger.FileSystem
