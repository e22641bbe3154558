import ReplyLedger.Proofs.FileSystem.Paths

/-!
# The places that paths lead to

A path leads to a place for a file if a file is there, or nothing is yet (`Found.place`). It leads to
that place, by the same directories and links, also when something else has been set there
(`find_of_place`). Where a path ends, unless at a directory (`Found.endsAt`), stands what it names
(`entryAt_of_find`); and if it is the path of a location, its way leads there (`leadsTo_of_find`).
-/

namespace ReplyLedger.FileSystem

variable {fs gs : FileSystem} {cwd : CurrentDirectory} {here p : Location}

/-- Where a file is written, if a path leads to a place for one. -/
def Found.place : Found → Option Location
  | .entry p (.file _) => some p
  | .vacant directory name => some (directory ++ [name])
  | _ => none

/-! ## The same place -/

variable {e : Entry}

/-- Names that lead to the place of a file lead to what is set there. -/
theorem advance_of_place (hk : fs.Keeps gs) (hg : gs.entryAt p = some e)
    (he : ∀ target, e ≠ .link target) (last : LastName) (segments : List Text) (here : Location) :
    (∀ found, fs.advance last here segments = .arrived found → found.place = some p →
      gs.advance last here segments = .arrived (.entry p e)) ∧
    ∀ directory target rest, fs.advance last here segments = .atLink directory target rest →
      gs.advance last here segments = .atLink directory target rest := by
  induction segments generalizing here with
  | nil =>
    refine ⟨fun found hf hp => ?_, fun directory target rest h => by simp [advance] at h⟩
    obtain rfl : Found.entry here .directory = found := by simpa [advance] using hf
    simp [Found.place] at hp
  | cons s rest ih =>
    by_cases h0 : s = [] ∨ s = ['.']
    · rw [advance_stay h0, advance_stay h0]
      exact ih here
    by_cases h2 : s = ['.', '.']
    · subst h2
      rw [advance_up, advance_up]
      exact ih here.dropLast
    by_cases hr : refusesSlash last rest
    · rw [refusesSlash] at hr
      rw [advance, if_neg (by simpa using h0), if_neg h2, if_pos hr]
      simp
    have hr : refusesSlash last rest = false := by simpa using hr
    by_cases hl : isTooLong s
    · rw [advance_tooLong h0 h2 hr hl]
      simp
    have hl : isTooLong s = false := by simpa using hl
    -- what is set at the end of the names is no link, so they end there
    have hset (hp : here ++ [s] = p) (hrest : rest = []) :
        gs.advance last here (s :: rest) = .arrived (.entry p e) := by
      subst hp
      rw [advance_cons h0 h2 hr hl, hg, hrest]
      cases e with
      | directory => rfl
      | file bytes => rfl
      | link target => exact absurd rfl (he target)
    rw [advance_cons h0 h2 hr hl]
    rcases hs : fs.entryAt (here ++ [s]) with _ | _ | old | target
    · refine ⟨fun found hf hp => ?_, fun directory target rest' h => ?_⟩
      · by_cases hrest : rest = []
        · obtain rfl : Found.vacant here s = found := by simpa [hrest] using hf
          exact hset (Option.some.inj hp) hrest
        · simp [hrest] at hf
      · by_cases hrest : rest = [] <;> simp [hrest] at h
    · rw [advance_cons h0 h2 hr hl, hk _ _ hs (by simp)]
      exact ih (here ++ [s])
    · refine ⟨fun found hf hp => ?_, fun directory target rest' h => ?_⟩
      · by_cases hrest : rest = []
        · obtain rfl : Found.entry (here ++ [s]) (.file old) = found := by simpa [hrest] using hf
          exact hset (Option.some.inj hp) hrest
        · simp [hrest] at hf
      · by_cases hrest : rest = [] <;> simp [hrest] at h
    · rw [advance_cons h0 h2 hr hl, hk _ _ hs (by simp)]
      by_cases hend : (rest = [] && last = .kept) = true
      · simp only [hend, if_true]
        refine ⟨fun found hf hp => ?_, fun directory target' rest' h => by simp at h⟩
        obtain rfl := Progress.arrived.inj hf
        simp [Found.place] at hp
      · simp [hend]

theorem walk_of_place (hk : fs.Keeps gs) (hg : gs.entryAt p = some e)
    (he : ∀ target, e ≠ .link target) {last : LastName} {links : Nat} {segments : List Text}
    {found : Found} (hw : fs.walk last links here segments = .ok found)
    (hp : found.place = some p) : gs.walk last links here segments = .ok (.entry p e) := by
  fun_induction walk fs last links here segments with
  | case1 links here segments found' hadv =>
    obtain rfl := Except.ok.inj hw
    exact walk_of_advance.1 _ ((advance_of_place hk hg he last segments here).1 found' hadv hp)
  | case2 => simp at hw
  | case3 => simp at hw
  | case4 here segments directory target rest hadv links ih =>
    rw [walk, (advance_of_place hk hg he last segments here).2 directory target rest hadv]
    exact ih hw

/-- **A path that leads to the place of a file leads to what is set there.** -/
theorem find_of_place (hk : fs.Keeps gs) (hg : gs.entryAt p = some e)
    (he : ∀ target, e ≠ .link target) {last : LastName} {path : Text} {found : Found}
    (hf : fs.find cwd last path = .ok found) (hp : found.place = some p) :
    gs.find cwd last path = .ok (.entry p e) := by
  unfold find at hf ⊢
  split at hf
  · simp at hf
  · rename_i h0
    rw [if_neg h0]
    split at hf
    · rename_i hrooted
      rw [if_pos hrooted]
      exact walk_of_place hk hg he hf hp
    · rename_i hrooted
      rw [if_neg hrooted]
      split at hf
      · exact walk_of_place hk hg he hf hp
      · rename_i above between
        rcases hc : climb last between (segmentsOf path) with _ | rest | error
        · obtain rfl : Found.removed = found := by simpa [hc] using hf
          simp [Found.place] at hp
        · simp only [hc] at hf
          exact walk_of_place hk hg he hf hp
        · simp [hc] at hf

/-- **A path that leads to the place of a file leads to the file once it is there.** -/
theorem find_of_made (hk : fs.Keeps gs) {bytes : Bytes} (hg : gs.entryAt p = some (.file bytes))
    {path : Text} {found : Found} (hf : fs.find cwd .made path = .ok found)
    (hp : found.place = some p) : gs.find cwd .followed path = .ok (.entry p (.file bytes)) := by
  have hfollowed := (find_followed hf).resolve_right (by simp)
  exact find_of_place hk hg (by simp) hfollowed hp

/-! ## The way to the place -/

/-- Where a path ends, unless at a directory. -/
def Found.endsAt : Found → Option Location
  | .entry _ .directory | .removed => none
  | .entry p _ => some p
  | .vacant directory name => some (directory ++ [name])

/-- The entry that a path names, if there is one. -/
def Found.entry? : Found → Option Entry
  | .entry _ e => some e
  | _ => none

/-- The way that names lead goes to where they end, and to the link that they stop at. -/
theorem leadsTo_of_advance (last : LastName) (segments : List Text) (here : Location) :
    (∀ found, fs.advance last here segments = .arrived found → found.endsAt = some p →
      fs.LeadsTo (here, segments) p ∧ fs.entryAt p = found.entry?) ∧
    ∀ directory target rest, fs.advance last here segments = .atLink directory target rest →
      ∃ s, fs.entryAt (directory ++ [s]) = some (.link target) ∧
        fs.Steps (here, segments) (directory, s :: rest) := by
  induction segments generalizing here with
  | nil =>
    refine ⟨fun found hf hp => ?_, fun directory target rest h => by simp [advance] at h⟩
    obtain rfl : Found.entry here .directory = found := by simpa [advance] using hf
    simp [Found.endsAt] at hp
  | cons s rest ih =>
    have go_on {there : Location} (hs : fs.Step (here, s :: rest) (there, rest))
        (ha : fs.advance last here (s :: rest) = fs.advance last there rest) :
        (∀ found, fs.advance last here (s :: rest) = .arrived found → found.endsAt = some p →
          fs.LeadsTo (here, s :: rest) p ∧ fs.entryAt p = found.entry?) ∧
        ∀ directory target rest', fs.advance last here (s :: rest) = .atLink directory target rest' →
          ∃ u, fs.entryAt (directory ++ [u]) = some (.link target) ∧
            fs.Steps (here, s :: rest) (directory, u :: rest') := by
      rw [ha]
      refine ⟨fun found hf hp => ?_, fun directory target rest' h => ?_⟩
      · exact ((ih there).1 found hf hp).imp_left fun hl => hl.after (.single hs)
      · obtain ⟨u, hl, hsteps⟩ := (ih there).2 directory target rest' h
        exact ⟨u, hl, .head hs hsteps⟩
    by_cases h0 : s = [] ∨ s = ['.']
    · exact go_on (.stay h0) (advance_stay h0 last here rest)
    by_cases h2 : s = ['.', '.']
    · subst h2
      exact go_on .up (advance_up last here rest)
    by_cases hr : refusesSlash last rest
    · rw [refusesSlash] at hr
      rw [advance, if_neg (by simpa using h0), if_neg h2, if_pos hr]
      simp
    have hr : refusesSlash last rest = false := by simpa using hr
    by_cases hl : isTooLong s
    · rw [advance_tooLong h0 h2 hr hl]
      simp
    have hl : isTooLong s = false := by simpa using hl
    have hend (hrest : rest = []) : fs.LeadsTo (here, s :: rest) (here ++ [s]) :=
      ⟨here, s, hrest ▸ .refl, rfl⟩
    have hadv := @advance_cons fs last s rest h0 h2 hr hl here
    rcases hs : fs.entryAt (here ++ [s]) with _ | _ | bytes | target <;> rw [hs] at hadv
    · rw [hadv]
      refine ⟨fun found hf hp => ?_, fun directory target rest' h => ?_⟩
      · by_cases hrest : rest = []
        · obtain rfl : Found.vacant here s = found := by simpa [hrest] using hf
          exact Option.some.inj hp ▸ ⟨hend hrest, hs⟩
        · simp [hrest] at hf
      · by_cases hrest : rest = [] <;> simp [hrest] at h
    · exact go_on (.down (isPlain_of_entryAt hs (by simp)) (by simp [hs])) hadv
    · rw [hadv]
      refine ⟨fun found hf hp => ?_, fun directory target rest' h => ?_⟩
      · by_cases hrest : rest = []
        · obtain rfl : Found.entry (here ++ [s]) (.file bytes) = found := by simpa [hrest] using hf
          exact Option.some.inj hp ▸ ⟨hend hrest, hs⟩
        · simp [hrest] at hf
      · by_cases hrest : rest = [] <;> simp [hrest] at h
    · rw [hadv]
      by_cases hk : (rest = [] && last = .kept) = true
      · simp only [hk, if_true]
        refine ⟨fun found hf hp => ?_, fun directory target' rest' h => by simp at h⟩
        obtain rfl := Progress.arrived.inj hf
        simp only [Bool.and_eq_true, decide_eq_true_eq] at hk
        exact Option.some.inj hp ▸ ⟨hend hk.1, hs⟩
      · simp only [hk]
        refine ⟨fun found hf hp => by simp at hf, fun directory target' rest' h => ?_⟩
        obtain ⟨rfl, rfl, rfl⟩ : here = directory ∧ target = target' ∧ rest = rest' := by
          simpa using h
        exact ⟨s, hs, .refl⟩

theorem leadsTo_of_walk {last : LastName} {links : Nat} {segments : List Text} {found : Found}
    (hw : fs.walk last links here segments = .ok found) (hp : found.endsAt = some p) :
    fs.LeadsTo (here, segments) p ∧ fs.entryAt p = found.entry? := by
  fun_induction walk fs last links here segments with
  | case1 links here segments found' hadv =>
    obtain rfl := Except.ok.inj hw
    exact (leadsTo_of_advance last segments here).1 found' hadv hp
  | case2 => simp at hw
  | case3 => simp at hw
  | case4 here segments directory target rest hadv links ih =>
    obtain ⟨s, hl, hsteps⟩ :=
      (leadsTo_of_advance (p := p) last segments here).2 directory target rest hadv
    exact (ih hw).imp_left fun h => h.after (hsteps.tail (.link hl))

/-- **The path of a location leads where the way of its names does.** -/
theorem leadsTo_of_find {q : Location} (hq : ∀ s ∈ q, '/' ∉ s) {last : LastName}
    {found : Found} (hf : fs.find cwd last (FilePath.ofNames q).text = .ok found)
    (hp : found.endsAt = some p) : fs.LeadsTo ([], q) p :=
  (leadsTo_of_walk ((find_ofNames cwd last hq).symm.trans hf) hp).1

/-- **What a path names stands where the path ends.** -/
theorem entryAt_of_find {last : LastName} {path : Text} {found : Found}
    (hf : fs.find cwd last path = .ok found) (hp : found.endsAt = some p) :
    fs.entryAt p = found.entry? := by
  unfold find at hf
  split at hf
  · simp at hf
  · split at hf
    · exact (leadsTo_of_walk hf hp).2
    · split at hf
      · exact (leadsTo_of_walk hf hp).2
      · split at hf
        · obtain rfl := Except.ok.inj hf
          simp [Found.endsAt] at hp
        · exact (leadsTo_of_walk hf hp).2
        · simp at hf

/-- Nothing stands at the free place that a path leads to. -/
theorem entryAt_of_find_vacant {last : LastName} {path : Text} {directory : Location} {name : Text}
    (h : fs.find cwd last path = .ok (.vacant directory name)) :
    fs.entryAt (directory ++ [name]) = none :=
  entryAt_of_find h rfl

/-- Writing sets a file at the place that the path leads to, where a file or nothing was. -/
theorem exists_place_of_changeFile {change : Bytes → Bytes} {path : Text}
    (h : fs.changeFile cwd path change = .ok gs) :
    ∃ found p old, fs.find cwd .made path = .ok found ∧ found.place = some p ∧
      gs = fs.put p (.file (change old)) ∧
      (fs.entryAt p = some (.file old) ∨ fs.entryAt p = none ∧ old = []) := by
  simp only [changeFile] at h
  rcases hf : fs.find cwd .made path with error | (⟨p, _ | old | target⟩ | ⟨directory, name⟩ | _)
  · simp [hf, bind, Except.bind] at h
  · simp [hf, bind, Except.bind] at h
  · simp only [hf, bind, Except.bind] at h
    exact ⟨_, p, old, rfl, rfl, (Except.ok.inj h).symm, .inl (entryAt_of_find hf rfl)⟩
  · simp [hf, bind, Except.bind] at h
  · simp only [hf, bind, Except.bind] at h
    exact ⟨_, directory ++ [name], [], rfl, rfl, (Except.ok.inj h).symm,
      .inr ⟨entryAt_of_find_vacant hf, rfl⟩⟩
  · simp [hf, bind, Except.bind] at h

end ReplyLedger.FileSystem
