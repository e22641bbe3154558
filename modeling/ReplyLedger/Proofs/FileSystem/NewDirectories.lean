import ReplyLedger.Proofs.FileSystem.Calls
import ReplyLedger.Proofs.FileSystem.Links
import ReplyLedger.Proofs.FileSystem.Places

/-!
# New directories

A directory is made where nothing stands, whatever links the path leads through: a walk that ends at
a free place has looked there (`entryAt_of_find_vacant`). So making directories changes nothing else
(`GainsDirectories`, `gainsDirectories_makeDirectory`), and a path that leads to a file still leads
there (`GainsDirectories.readFile_eq`).
-/

namespace ReplyLedger.FileSystem

variable {fs gs hs : FileSystem} {p q : Location} {T : Location → Prop}

/-! ## Making directories -/

/-- Nothing has changed but that there are new directories, all of them at locations with the
property `T`. -/
def GainsDirectories (T : Location → Prop) (fs gs : FileSystem) : Prop :=
  ∀ q, gs.entryAt q = fs.entryAt q ∨
    T q ∧ fs.entryAt q = none ∧ gs.entryAt q = some .directory

namespace GainsDirectories

theorem refl (T : Location → Prop) (fs : FileSystem) : fs.GainsDirectories T fs :=
  fun _ => .inl rfl

/-- What was there is still there. -/
theorem entryAt_eq (h : fs.GainsDirectories T gs) {e : Entry} (he : fs.entryAt q = some e) :
    gs.entryAt q = some e := by
  rcases h q with hq | ⟨-, hq, -⟩
  · rw [hq, he]
  · simp [he] at hq

/-- What is new is a directory. -/
theorem eq_directory (h : fs.GainsDirectories T gs) {e : Entry} (hn : fs.entryAt q = none)
    (he : gs.entryAt q = some e) : e = .directory := by
  rcases h q with hq | ⟨-, -, hq⟩
  · simp [hq, hn] at he
  · exact Option.some.inj (he.symm.trans hq)

theorem trans (h : fs.GainsDirectories T gs) (h' : gs.GainsDirectories T hs) :
    fs.GainsDirectories T hs := by
  intro q
  rcases h' q with hq' | ⟨ht, hq', hd⟩
  · rw [hq']
    exact h q
  · rcases h q with hq | ⟨-, -, hq⟩
    · exact .inr ⟨ht, hq ▸ hq', hd⟩
    · simp [hq] at hq'

theorem put (h : fs.GainsDirectories T gs) (hn : gs.entryAt p = none) (ht : T p) :
    fs.GainsDirectories T (gs.put p .directory) := by
  refine h.trans fun q => ?_
  by_cases hq : q = p
  · subst hq
    by_cases ha : gs.Accepts q
    · exact .inr ⟨ht, hn, by rw [entryAt_put ha, if_pos rfl]⟩
    · exact .inl (by rw [FileSystem.put, dif_neg ha])
  · exact .inl (entryAt_put_of_ne .directory hq)

/-- New directories put no link on the way to a settled location. -/
theorem settled (h : fs.GainsDirectories T gs) (hp : fs.Settled p) : gs.Settled p := by
  refine ⟨hp.isPlain, fun q target hq hl => ?_⟩
  rcases h q with he | ⟨-, -, he⟩
  · exact hp.not_link q target hq (he.symm.trans hl)
  · simp [he] at hl

/-- No link is made. -/
theorem sameLinks (h : fs.GainsDirectories T gs) : fs.SameLinks gs := by
  refine fun q target => ⟨h.entryAt_eq, fun hl => ?_⟩
  rcases h q with hq | ⟨-, -, hd⟩
  · rw [← hq, hl]
  · simp [hd] at hl

/-! ### Following paths -/

/-- Names lead equally far, unless they lead to where nothing was. -/
theorem advance_eq_or (h : fs.GainsDirectories T gs) (last : LastName) (segments : List Text)
    (here : Location) :
    gs.advance last here segments = fs.advance last here segments ∨
      (∃ error, fs.advance last here segments = .refused error) ∨
      ∃ directory name, fs.advance last here segments = .arrived (.vacant directory name) := by
  induction segments generalizing here with
  | nil => exact .inl rfl
  | cons s rest ih =>
    rw [advance, advance]
    split
    · exact ih here
    · split
      · exact ih here.dropLast
      · split
        · exact .inl rfl
        · split
          · exact .inl rfl
          · rcases he : fs.entryAt (here ++ [s]) with _ | e
            · by_cases hrest : rest = []
              · exact .inr (.inr ⟨here, s, by simp [hrest]⟩)
              · exact .inr (.inl ⟨.noEntry, by simp [hrest]⟩)
            · rw [h.entryAt_eq he]
              cases e with
              | directory => exact ih (here ++ [s])
              | file bytes => exact .inl rfl
              | link target => exact .inl rfl

theorem walk_eq (h : fs.GainsDirectories T gs) {last : LastName} {links : Nat} {here : Location}
    {segments : List Text} {e : Entry} (hw : fs.walk last links here segments = .ok (.entry p e)) :
    gs.walk last links here segments = .ok (.entry p e) := by
  fun_induction walk fs last links here segments with
  | case1 links here segments found hadv =>
    obtain rfl := Except.ok.inj hw
    rcases h.advance_eq_or last segments here with ha | ⟨error, ha⟩ | ⟨directory, name, ha⟩
    · exact walk_of_advance.1 _ (ha.trans hadv)
    · simp [ha] at hadv
    · simp [ha] at hadv
  | case2 => simp at hw
  | case3 => simp at hw
  | case4 here segments directory target rest hadv links ih =>
    rcases h.advance_eq_or last segments here with ha | ⟨error, ha⟩ | ⟨directory', name, ha⟩
    · rw [walk, ha.trans hadv]
      exact ih hw
    · simp [ha] at hadv
    · simp [ha] at hadv

/-- A path that leads to an entry still leads there. -/
theorem find_eq (h : fs.GainsDirectories T gs) {cwd : CurrentDirectory} {last : LastName}
    {path : Text} {e : Entry} (hf : fs.find cwd last path = .ok (.entry p e)) :
    gs.find cwd last path = .ok (.entry p e) := by
  unfold find at hf ⊢
  split at hf
  · simp at hf
  · rename_i h0
    rw [if_neg h0]
    split at hf
    · rename_i hrooted
      rw [if_pos hrooted]
      exact h.walk_eq hf
    · rename_i hrooted
      rw [if_neg hrooted]
      split at hf
      · exact h.walk_eq hf
      · split at hf
        · simp at hf
        · exact h.walk_eq hf
        · simp at hf

/-- What could be read is still read. -/
theorem readFile_eq (h : fs.GainsDirectories T gs) {cwd : CurrentDirectory} {path : Text}
    {bytes : Bytes} (hr : fs.readFile cwd path = .ok bytes) : gs.readFile cwd path = .ok bytes := by
  simp only [readFile, status] at hr
  rcases hf : fs.find cwd .followed path with error | (⟨p, e⟩ | ⟨directory, name⟩ | _)
  · simp [hf, bind, Except.bind] at hr
  · simpa only [readFile, status, h.find_eq hf, hf] using hr
  · simp [hf, bind, Except.bind] at hr
  · simp [hf, bind, Except.bind, pure, Except.pure] at hr

end GainsDirectories

/-- A directory is made at a free place. -/
theorem exists_vacant_of_makeDirectory {cwd : CurrentDirectory} {path : Text}
    (h : fs.makeDirectory cwd path = .ok gs) : ∃ directory name,
      fs.find cwd .kept path = .ok (.vacant directory name) ∧
        gs = fs.put (directory ++ [name]) .directory := by
  rw [makeDirectory] at h
  rcases hf : fs.find cwd .kept path with error | found
  · simp [hf, bind, Except.bind] at h
  · rw [hf] at h
    cases found with
    | entry => simp [bind, Except.bind] at h
    | removed => simp [bind, Except.bind] at h
    | vacant directory name => exact ⟨directory, name, rfl, (Except.ok.inj h).symm⟩

/-- **A directory that is made is all that is new.** -/
theorem gainsDirectories_makeDirectory {cwd : CurrentDirectory} {path : Text}
    (h : gs.makeDirectory cwd path = .ok hs) (hg : fs.GainsDirectories (fun _ => True) gs) :
    fs.GainsDirectories (fun _ => True) hs := by
  obtain ⟨directory, name, hf, rfl⟩ := exists_vacant_of_makeDirectory h
  exact hg.put (entryAt_of_find_vacant hf) trivial

end ReplyLedger.FileSystem
