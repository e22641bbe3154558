import ReplyLedger.Proofs.FileSystem.Ways
import ReplyLedger.Proofs.Text.Segments

/-!
# Resolution follows the way to its end

What `resolution` finds is the end of the way that the segments lead, and a settled location
(`resolution_eq_resolved`), whatever links there are: a link that has been resolved before is not
followed again, but its way has the same end. If the way meets no loop, resolution does not get stuck
(`resolution_ne_stuck`): the links in the middle of their own resolution are different from each
other, and a link that is met again would be met on the way of its own target.
-/

namespace ReplyLedger.FileSystem

variable {fs : FileSystem}

/-! ## What is known about the links that have been entered -/

/-- Every link that has come to a location has its way end there, and the location is settled. -/
def Known (fs : FileSystem) (entered : Entered) : Prop :=
  ∀ link p, entered.lookup link = some (some p) → fs.Settled p ∧
    ∀ here s target, link = here ++ [s] → fs.entryAt link = some (.link target) →
      fs.Steps (wayOf here target) (p, [])

/-- A link is open while it is in the middle of its own resolution. -/
def IsOpen (entered : Entered) (link : Location) : Prop := entered.lookup link = some none

theorem lookup_cons_of_ne {entered : Entered} {link l : Location} {r : Option Location}
    (h : l ≠ link) : List.lookup l ((link, r) :: entered) = entered.lookup l := by
  rw [List.lookup_cons, beq_eq_false_iff_ne.2 h]

theorem Known.cons_none {entered : Entered} (h : fs.Known entered) (link : Location) :
    fs.Known ((link, none) :: entered) := by
  intro l p hp
  by_cases hl : l = link
  · simp [hl] at hp
  · exact h l p (by rwa [lookup_cons_of_ne hl] at hp)

theorem Known.cons_some {entered : Entered} (h : fs.Known entered) {here : Location}
    {s target : Text} {p : Location} (hl : fs.entryAt (here ++ [s]) = some (.link target))
    (hp : fs.Settled p) (hw : fs.Steps (wayOf here target) (p, [])) :
    fs.Known ((here ++ [s], some p) :: entered) := by
  intro l q hq
  by_cases he : l = here ++ [s]
  · subst he
    obtain rfl : p = q := by simpa using hq
    refine ⟨hp, fun here' s' target' hs' hl' => ?_⟩
    obtain ⟨rfl, -⟩ := List.append_inj' hs' rfl
    obtain rfl := Entry.link.inj (Option.some.inj (hl.symm.trans hl'))
    exact hw
  · exact h l q (by rwa [lookup_cons_of_ne he] at hq)

theorem isOpen_cons_none {entered : Entered} {link l : Location}
    (h : entered.lookup link = none) : IsOpen ((link, none) :: entered) l ↔
      l = link ∨ IsOpen entered l := by
  by_cases hl : l = link
  · subst hl
    simp [IsOpen]
  · simp [IsOpen, lookup_cons_of_ne hl, hl]

theorem isOpen_cons_some {entered : Entered} {link p l : Location} :
    IsOpen ((link, some p) :: entered) l ↔ l ≠ link ∧ IsOpen entered l := by
  by_cases hl : l = link
  · subst hl
    simp [IsOpen]
  · simp [IsOpen, lookup_cons_of_ne hl, hl]

/-- A link that has been resolved is not open any more, and the others are as they were before. -/
theorem isOpen_resolved {entered entered' : Entered} {link p : Location}
    (h : entered.lookup link = none)
    (ho : ∀ l, IsOpen entered' l ↔ IsOpen ((link, none) :: entered) l) (l : Location) :
    IsOpen ((link, some p) :: entered') l ↔ IsOpen entered l := by
  rw [isOpen_cons_some, ho, isOpen_cons_none h]
  refine ⟨fun ⟨hne, hor⟩ => hor.resolve_left hne, fun hl => ⟨?_, .inr hl⟩⟩
  rintro rfl
  simp [IsOpen, h] at hl

/-! ## Following segments -/

theorem follow_stay {enter : Entered → Location → Text → Resolution} {entered : Entered}
    {here : Location} {s : Text} {rest : List Text} (hs : s = [] ∨ s = ['.']) :
    fs.follow enter entered here (s :: rest) = fs.follow enter entered here rest := by
  rw [follow, if_pos (by simpa using hs)]

theorem follow_up {enter : Entered → Location → Text → Resolution} {entered : Entered}
    {here : Location} {rest : List Text} :
    fs.follow enter entered here (['.', '.'] :: rest) =
      fs.follow enter entered here.dropLast rest := by
  simp [follow]

/-- A plain segment that is no link leads down. -/
theorem follow_down {enter : Entered → Location → Text → Resolution} {entered : Entered}
    {here : Location} {s : Text} {rest : List Text} (hs : isPlain s)
    (hn : ∀ target, fs.entryAt (here ++ [s]) ≠ some (.link target)) :
    fs.follow enter entered here (s :: rest) = fs.follow enter entered (here ++ [s]) rest := by
  obtain ⟨h0, h1, h2, -, h4⟩ := isPlain_iff.1 hs
  rw [follow, if_neg (by simp [h0, h1]), if_neg h2, if_neg (by simp [h4])]
  dsimp only
  split
  · rename_i target hl
    exact absurd hl (hn target)
  · rfl

/-- A link that has been resolved leads where it has led before, and others are resolved first. -/
theorem follow_link {enter : Entered → Location → Text → Resolution} {entered : Entered}
    {here : Location} {s target : Text} {rest : List Text} (hs : isPlain s)
    (hl : fs.entryAt (here ++ [s]) = some (.link target)) :
    fs.follow enter entered here (s :: rest) =
      match entered.lookup (here ++ [s]) with
      | some (some p) => fs.follow enter entered p rest
      | some none => .stuck (readPlain (.ofNames (here ++ [s])) rest)
      | none =>
        match enter ((here ++ [s], none) :: entered) (here ++ [s]) target with
        | .resolved p entered => fs.follow enter ((here ++ [s], some p) :: entered) p rest
        | .stuck path => .stuck (readPlain path rest)
        | .badName => .badName := by
  obtain ⟨h0, h1, h2, -, h4⟩ := isPlain_iff.1 hs
  rw [follow, if_neg (by simp [h0, h1]), if_neg h2, if_neg (by simp [h4])]
  dsimp only
  split
  · rename_i target' hl'
    obtain rfl : target = target' := by simpa using hl.symm.trans hl'
    rfl
  · rename_i hn
    exact absurd hl (hn target)

/-- A segment of a written path names nothing, leads up, is plain, or holds a NUL character. -/
theorem segment_cases {s : Text} (hs : '/' ∉ s) :
    (s = [] ∨ s = ['.']) ∨ s = ['.', '.'] ∨ isPlain s ∨
      (¬ (s = [] ∨ s = ['.']) ∧ s ≠ ['.', '.'] ∧ hasNul s) := by
  by_cases h0 : s = [] ∨ s = ['.']
  · exact .inl h0
  by_cases h2 : s = ['.', '.']
  · exact .inr (.inl h2)
  by_cases h4 : hasNul s
  · exact .inr (.inr (.inr ⟨h0, h2, h4⟩))
  · refine .inr (.inr (.inl (isPlain_iff.2 ?_)))
    rw [not_or] at h0
    exact ⟨h0.1, h0.2, h2, hs, by simpa using h4⟩

theorem follow_badName {enter : Entered → Location → Text → Resolution} {entered : Entered}
    {here : Location} {s : Text} {rest : List Text} (h0 : ¬ (s = [] ∨ s = ['.']))
    (h2 : s ≠ ['.', '.']) (h4 : hasNul s) :
    fs.follow enter entered here (s :: rest) = .badName := by
  rw [follow, if_neg (by simpa using h0), if_neg h2, if_pos h4]

theorem not_mem_segmentsOf {t s : Text} (h : s ∈ segmentsOf t) : '/' ∉ s :=
  Text.not_mem_of_mem_segments h

/-! ## The end of the way -/

/-- What holds when the segments `segments` from `here` have come to `p`. -/
structure Arrival (fs : FileSystem) (entered : Entered) (w : Way) (p : Location)
    (entered' : Entered) : Prop where
  steps : fs.Steps w (p, [])
  settled : fs.Settled p
  known : fs.Known entered'
  isOpen_iff : ∀ link, IsOpen entered' link ↔ IsOpen entered link

theorem Arrival.after {entered entered' : Entered} {w w' : Way} {p : Location}
    (a : fs.Arrival entered w' p entered') (hw : fs.Steps w w') : fs.Arrival entered w p entered' :=
  ⟨hw.trans a.steps, a.settled, a.known, a.isOpen_iff⟩

/-- A link on the way is left behind at the end of its own way. -/
theorem Steps.behind_link {here : Location} {s target : Text}
    (hl : fs.entryAt (here ++ [s]) = some (.link target)) {p : Location}
    (hw : fs.Steps (wayOf here target) (p, [])) (rest : List Text) :
    fs.Steps (here, s :: rest) (p, rest) :=
  .head (.link hl) (hw.append rest)

/-- If links are resolved to the end of their ways, segments are followed to the end of theirs. -/
theorem arrival_of_follow {enter : Entered → Location → Text → Resolution}
    (henter : ∀ {entered here s target p entered'}, fs.Known entered → fs.Settled here →
      enter entered (here ++ [s]) target = .resolved p entered' →
        fs.Arrival entered (wayOf here target) p entered')
    {segments : List Text} (hs : ∀ s ∈ segments, '/' ∉ s) {entered : Entered}
    (hk : fs.Known entered) {here : Location} (hh : fs.Settled here) {p : Location}
    {entered' : Entered} (h : fs.follow enter entered here segments = .resolved p entered') :
    fs.Arrival entered (here, segments) p entered' := by
  induction segments generalizing entered here with
  | nil =>
    obtain ⟨rfl, rfl⟩ := Resolution.resolved.inj h
    exact ⟨.refl, hh, hk, fun _ => Iff.rfl⟩
  | cons s rest ih =>
    have hrest : ∀ u ∈ rest, '/' ∉ u := fun u hu => hs u (List.mem_cons_of_mem s hu)
    rcases segment_cases (hs s (by simp)) with h0 | rfl | hp | ⟨h0, h2, h4⟩
    · rw [follow_stay h0] at h
      exact (ih hrest hk hh h).after (.single (.stay h0))
    · rw [follow_up] at h
      exact (ih hrest hk hh.dropLast h).after (.single .up)
    · by_cases hl : ∃ target, fs.entryAt (here ++ [s]) = some (.link target)
      · obtain ⟨target, hl⟩ := hl
        rw [follow_link hp hl] at h
        rcases ho : entered.lookup (here ++ [s]) with _ | _ | q
        · simp only [ho] at h
          split at h
          · rename_i q entered₁ he
            have a₁ := henter (hk.cons_none (here ++ [s])) hh he
            have a := ih hrest (a₁.known.cons_some hl a₁.settled a₁.steps) a₁.settled h
            have hopen link := (a.isOpen_iff link).trans (isOpen_resolved ho a₁.isOpen_iff link)
            exact ⟨(Steps.behind_link hl a₁.steps rest).trans a.steps, a.settled, a.known, hopen⟩
          · simp at h
          · simp at h
        · simp [ho] at h
        · simp only [ho] at h
          obtain ⟨hq, hw⟩ := hk _ q ho
          have hend := hw here s target rfl hl
          exact (ih hrest hk hq h).after (Steps.behind_link hl hend rest)
      · have hn : ∀ target, fs.entryAt (here ++ [s]) ≠ some (.link target) := not_exists.1 hl
        rw [follow_down hp hn] at h
        exact (ih hrest hk (hh.snoc hp hn) h).after (.single (.down hp hn))
    · rw [follow_badName h0 h2 h4] at h
      simp at h

theorem arrival_of_resolveFrom (depth : Nat) {segments : List Text} (hs : ∀ s ∈ segments, '/' ∉ s)
    {entered : Entered} (hk : fs.Known entered) {here : Location} (hh : fs.Settled here)
    {p : Location} {entered' : Entered}
    (h : fs.resolveFrom depth entered here segments = .resolved p entered') :
    fs.Arrival entered (here, segments) p entered' := by
  induction depth generalizing segments entered here p entered' with
  | zero => exact arrival_of_follow (fun _ _ he => by simp at he) hs hk hh h
  | succ depth ih =>
    refine arrival_of_follow (fun {entered here s target p entered'} hk hh he => ?_) hs hk hh h
    rw [List.dropLast_concat] at he
    refine ih (fun s hs => not_mem_segmentsOf hs) hk ?_ he
    split
    · exact .nil fs
    · exact hh

/-- **What segments are resolved to is the end of their way, and settled.** -/
theorem resolution_eq_resolved {segments : List Text} (hs : ∀ s ∈ segments, '/' ∉ s)
    {p : Location} {entered : Entered} (h : fs.resolution segments = .resolved p entered) :
    fs.Steps ([], segments) (p, []) ∧ fs.Settled p := by
  have hk : fs.Known [] := fun link p hp => by simp at hp
  have a := arrival_of_resolveFrom fs.linkCount hs hk (.nil fs) h
  exact ⟨a.steps, a.settled⟩

/-! ## Getting stuck -/

/-- The way `w` is a part of the way `start`, inside the links `links`: since each of them was entered,
its target has not been left yet. -/
structure Inside (fs : FileSystem) (start : Way) (links : List Location) (w : Way) : Prop where
  from_start : ∃ tail, fs.Steps start (w.1, w.2 ++ tail)
  from_link : ∀ link ∈ links, ∃ here s target tail, link = here ++ [s] ∧
    fs.entryAt link = some (.link target) ∧ fs.Steps (wayOf here target) (w.1, w.2 ++ tail)

variable {start : Way}

theorem Inside.steps {links : List Location} {w v : Way} (h : fs.Inside start links w)
    (hv : fs.Steps w v) : fs.Inside start links v := by
  refine ⟨h.from_start.imp fun tail hw => hw.trans (hv.append tail), fun link hlink => ?_⟩
  obtain ⟨here, s, target, tail, rfl, hl, hw⟩ := h.from_link link hlink
  exact ⟨here, s, target, tail, rfl, hl, hw.trans (hv.append tail)⟩

/-- Entering a link is a step that goes on inside the links that are open. -/
theorem Inside.enter {links : List Location} {here : Location} {s target : Text}
    {rest : List Text} (h : fs.Inside start links (here, s :: rest))
    (hl : fs.entryAt (here ++ [s]) = some (.link target)) :
    fs.Inside start ((here ++ [s]) :: links) (wayOf here target) := by
  have hstep {w : Way} {tail : List Text} (hw : fs.Steps w (here, s :: rest ++ tail)) :
      fs.Steps w ((wayOf here target).1, (wayOf here target).2 ++ (rest ++ tail)) := by
    rw [← List.append_assoc]
    exact hw.tail ((Step.link hl).append tail)
  obtain ⟨tail, hstart⟩ := h.from_start
  refine ⟨⟨rest ++ tail, hstep hstart⟩, fun link hlink => ?_⟩
  rcases List.mem_cons.1 hlink with rfl | hlink
  · exact ⟨here, s, target, [], rfl, hl, by simpa using .refl⟩
  · obtain ⟨here', s', target', tail', rfl, hl', hw⟩ := h.from_link link hlink
    exact ⟨here', s', target', rest ++ tail', rfl, hl', hstep hw⟩

/-- If a way meets no loop, no link on it is met while it is open. -/
theorem Inside.not_mem {links : List Location} {here : Location} {s : Text} {rest : List Text}
    (h : fs.Inside start links (here, s :: rest)) (hf : ¬ fs.MeetsLoop start) :
    here ++ [s] ∉ links := by
  intro hlink
  obtain ⟨tail, hstart⟩ := h.from_start
  obtain ⟨here', s', target, tail', he, hl, hw⟩ := h.from_link _ hlink
  refine hf ⟨here', s', target, he ▸ hl, ⟨here, s, rest ++ tail, hstart, he⟩, ?_⟩
  exact ⟨here, s, rest ++ tail', hw, he⟩

/-- Whether an entry with its location is a link. -/
def isLink (x : Location × Entry) : Bool :=
  match x.2 with
  | .link _ => true
  | _ => false

theorem linkCount_eq_length : fs.linkCount = ((fs.entries.filter isLink).map Prod.fst).length := by
  rw [List.length_map, ← List.countP_eq_length_filter]
  rfl

/-- Different links are no more than there are links. -/
theorem length_le_linkCount {links : List Location} (hd : links.Nodup)
    (h : ∀ link ∈ links, ∃ target, fs.entryAt link = some (.link target) ∧ link ≠ []) :
    links.length ≤ fs.linkCount := by
  have hsub : links ⊆ (fs.entries.filter isLink).map Prod.fst := by
    intro link hlink
    obtain ⟨target, hl, h0⟩ := h link hlink
    exact List.mem_map.2 ⟨(link, .link target),
      List.mem_filter.2 ⟨(entryAt_eq_some_iff h0).1 hl, rfl⟩, rfl⟩
  rw [linkCount_eq_length]
  exact List.Nodup.length_le_of_subset hd hsub

/-- If links that are not open are resolved without getting stuck, so are segments. -/
theorem follow_ne_stuck (hf : ¬ fs.MeetsLoop start)
    {enter : Entered → Location → Text → Resolution} {links : List Location}
    (harrive : ∀ {entered here s target p entered'}, fs.Known entered → fs.Settled here →
      enter entered (here ++ [s]) target = .resolved p entered' →
        fs.Arrival entered (wayOf here target) p entered')
    (henter : ∀ {entered here s target path}, fs.Known entered → fs.Settled here →
      fs.entryAt (here ++ [s]) = some (.link target) → here ++ [s] ∉ links →
      fs.Inside start ((here ++ [s]) :: links) (wayOf here target) →
      (∀ link, IsOpen entered link ↔ link ∈ (here ++ [s]) :: links) →
        enter entered (here ++ [s]) target ≠ .stuck path)
    {segments : List Text} (hs : ∀ s ∈ segments, '/' ∉ s) {entered : Entered}
    (hk : fs.Known entered) (ho : ∀ link, IsOpen entered link ↔ link ∈ links)
    {here : Location} (hh : fs.Settled here) (hi : fs.Inside start links (here, segments))
    {path : FilePath} : fs.follow enter entered here segments ≠ .stuck path := by
  induction segments generalizing entered here with
  | nil => simp [follow]
  | cons s rest ih =>
    have hrest : ∀ u ∈ rest, '/' ∉ u := fun u hu => hs u (List.mem_cons_of_mem s hu)
    rcases segment_cases (hs s (by simp)) with h0 | rfl | hp | ⟨h0, h2, h4⟩
    · rw [follow_stay h0]
      exact ih hrest hk ho hh (hi.steps (.single (.stay h0)))
    · rw [follow_up]
      exact ih hrest hk ho hh.dropLast (hi.steps (.single .up))
    · by_cases hl : ∃ target, fs.entryAt (here ++ [s]) = some (.link target)
      · obtain ⟨target, hl⟩ := hl
        have hm := hi.not_mem hf
        rw [follow_link hp hl]
        rcases hlook : entered.lookup (here ++ [s]) with _ | _ | q
        · have hopen link : IsOpen ((here ++ [s], none) :: entered) link ↔
              link ∈ (here ++ [s]) :: links := by
            rw [isOpen_cons_none hlook, ho, List.mem_cons]
          have hk' := hk.cons_none (here ++ [s])
          have hns path : enter ((here ++ [s], none) :: entered) (here ++ [s]) target ≠ .stuck path :=
            henter hk' hh hl hm (hi.enter hl) hopen
          simp only
          split
          · rename_i q entered₁ he
            have a := harrive hk' hh he
            have hclosed link : IsOpen ((here ++ [s], some q) :: entered₁) link ↔ link ∈ links :=
              (isOpen_resolved hlook a.isOpen_iff link).trans (ho link)
            exact ih hrest (a.known.cons_some hl a.settled a.steps) hclosed a.settled
              (hi.steps (Steps.behind_link hl a.steps rest))
          · rename_i path' he
            exact absurd he (hns path')
          · simp
        · exact absurd ((ho _).1 hlook) hm
        · obtain ⟨hq, hw⟩ := hk _ q hlook
          have hend := hw here s target rfl hl
          exact ih hrest hk ho hq (hi.steps (Steps.behind_link hl hend rest))
      · have hn : ∀ target, fs.entryAt (here ++ [s]) ≠ some (.link target) := not_exists.1 hl
        rw [follow_down hp hn]
        exact ih hrest hk ho (hh.snoc hp hn) (hi.steps (.single (.down hp hn)))
    · rw [follow_badName h0 h2 h4]
      simp

theorem resolveFrom_ne_stuck (hf : ¬ fs.MeetsLoop start) (depth : Nat) {links : List Location}
    (hd : links.Nodup) (hc : fs.linkCount ≤ links.length + depth) {segments : List Text}
    (hs : ∀ s ∈ segments, '/' ∉ s) {entered : Entered} (hk : fs.Known entered)
    (ho : ∀ link, IsOpen entered link ↔ link ∈ links) {here : Location} (hh : fs.Settled here)
    (hi : fs.Inside start links (here, segments)) {path : FilePath} :
    fs.resolveFrom depth entered here segments ≠ .stuck path := by
  induction depth generalizing links segments entered here path with
  | zero =>
    refine follow_ne_stuck hf (fun _ _ he => by simp at he) ?_ hs hk ho hh hi
    intro entered here s target path _ _ hl hm hi' _
    have hle : ((here ++ [s]) :: links).length ≤ fs.linkCount := by
      refine length_le_linkCount (List.nodup_cons.2 ⟨hm, hd⟩) fun link hlink => ?_
      obtain ⟨here', s', target', -, rfl, hl', -⟩ := hi'.from_link link hlink
      exact ⟨target', hl', by simp⟩
    rw [List.length_cons] at hle
    omega
  | succ depth ih =>
    refine follow_ne_stuck hf ?_ ?_ hs hk ho hh hi
    · intro entered here s target p entered' hk hh he
      rw [List.dropLast_concat] at he
      refine arrival_of_resolveFrom depth (fun s hs => not_mem_segmentsOf hs) hk ?_ he
      split
      · exact .nil fs
      · exact hh
    · intro entered here s target path hk hh hl hm hi' hopen
      rw [List.dropLast_concat]
      refine ih (List.nodup_cons.2 ⟨hm, hd⟩) ?_ (fun s hs => not_mem_segmentsOf hs) hk hopen ?_ hi'
      · rw [List.length_cons]
        omega
      · split
        · exact .nil fs
        · exact hh

/-- **If a way meets no loop, its resolution does not get stuck.** -/
theorem resolution_ne_stuck {segments : List Text} (hf : ¬ fs.MeetsLoop ([], segments))
    (hs : ∀ s ∈ segments, '/' ∉ s) {path : FilePath} : fs.resolution segments ≠ .stuck path := by
  have hk : fs.Known [] := fun link p hp => by simp at hp
  exact resolveFrom_ne_stuck hf fs.linkCount List.nodup_nil (by simp) hs hk (by simp [IsOpen])
    (.nil fs) ⟨⟨[], by simpa using .refl⟩, by simp⟩

/-- If a way meets no loop, the path that its segments come to is its settled end. -/
theorem resolve_eq_ok_of_way {segments : List Text} (hf : ¬ fs.MeetsLoop ([], segments))
    (hs : ∀ s ∈ segments, '/' ∉ s) {found : FilePath} (h : fs.resolve segments = .ok found) :
    found = .ofNames found.names ∧ fs.Settled found.names ∧
      fs.Steps ([], segments) (found.names, []) := by
  have settle_eq {path : FilePath} (h : fs.settle path = .ok found) : found = path := by
    unfold settle at h
    split at h
    · simp at h
    · split at h
      · simp at h
      · exact (Except.ok.inj h).symm
  unfold resolve at h
  split at h
  · rename_i p entered hr
    obtain ⟨hw, hp⟩ := resolution_eq_resolved hs hr
    rw [settle_eq h]
    exact ⟨rfl, hp, hw⟩
  · rename_i path hr
    exact absurd hr (resolution_ne_stuck hf hs)
  · simp at h

/-- Without loops, the path that segments come to is the settled end of their way. -/
theorem resolve_eq_ok (hf : fs.LoopFree) {segments : List Text} (hs : ∀ s ∈ segments, '/' ∉ s)
    {found : FilePath} (h : fs.resolve segments = .ok found) :
    found = .ofNames found.names ∧ fs.Settled found.names ∧
      fs.Steps ([], segments) (found.names, []) :=
  resolve_eq_ok_of_way (hf.not_meetsLoop _) hs h

end ReplyLedger.FileSystem
