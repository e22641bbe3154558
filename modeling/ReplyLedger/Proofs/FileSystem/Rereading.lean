import ReplyLedger.Proofs.FileSystem.Ancestors
import ReplyLedger.Proofs.FileSystem.Places

/-!
# Reading what has been written

When a call has written a file, the path of the call leads to the file, and its bytes are read there
(`readFile_of_changeFile`). The path may be any path from a current directory that is in the tree:
the links and directories on the way are the same after the call (`find_of_made`), and the file can
be set where the way ends, since its name is no dots and holds no slash and no NUL character
(`takesFile_of_find`). For that the targets of links must hold none (`LinksHaveNoNul`).
-/

namespace ReplyLedger

/-- Whether the current directory, or the one that it has been removed from below, is in the tree. -/
def CurrentDirectory.IsIn (fs : FileSystem) : CurrentDirectory → Prop
  | .present p | .removed p _ => fs.IsDirectory p

namespace FileSystem

variable {fs gs : FileSystem} {cwd : CurrentDirectory} {here p : Location}

/-- No link has a target that holds a NUL character. -/
def LinksHaveNoNul (fs : FileSystem) : Prop :=
  ∀ p target, fs.entryAt p = some (.link target) → hasNul target = false

/-- Whether texts can be segments of a path: they hold neither a slash nor a NUL character. -/
def AreSegments (segments : List Text) : Prop := ∀ s ∈ segments, '/' ∉ s ∧ hasNul s = false

theorem areSegments_segmentsOf {t : Text} (h : hasNul t = false) : AreSegments (segmentsOf t) := by
  intro s hs
  refine ⟨Text.not_mem_of_mem_segments hs, ?_⟩
  rw [hasNul, ← Bool.not_eq_true, List.contains_iff_mem] at h ⊢
  exact fun hc => h (Text.mem_of_mem_segments hs hc)

theorem AreSegments.tail {s : Text} {rest : List Text} (h : AreSegments (s :: rest)) :
    AreSegments rest := fun u hu => h u (List.mem_cons_of_mem s hu)

/-! ## A file can be set where a path ends -/

/-- Whether a file can be set at a location: in the place of another, or where nothing is. -/
structure TakesFile (fs : FileSystem) (p : Location) : Prop where
  accepts : fs.Accepts p
  eq_file : ∀ e, fs.entryAt p = some e → ∃ bytes, e = .file bytes

theorem takesFile_of_advance {last : LastName} {segments : List Text} (hh : fs.IsDirectory here)
    (hs : AreSegments segments) :
    (∀ found, fs.advance last here segments = .arrived found → found.place = some p →
      fs.TakesFile p) ∧
    ∀ directory target rest, fs.advance last here segments = .atLink directory target rest →
      fs.IsDirectory directory ∧ (∃ q, fs.entryAt q = some (.link target)) ∧ AreSegments rest := by
  induction segments generalizing here with
  | nil =>
    refine ⟨fun found hf hp => ?_, fun directory target rest h => by simp [advance] at h⟩
    obtain rfl : Found.entry here .directory = found := by simpa [advance] using hf
    simp [Found.place] at hp
  | cons s rest ih =>
    by_cases h0 : s = [] ∨ s = ['.']
    · rw [advance_stay h0]
      exact ih hh hs.tail
    by_cases h2 : s = ['.', '.']
    · subst h2
      rw [advance_up]
      have hup := isDirectory_of_prefix hh (List.dropLast_prefix here)
      exact ih hup hs.tail
    by_cases hr : refusesSlash last rest
    · rw [refusesSlash] at hr
      rw [advance, if_neg (by simpa using h0), if_neg h2, if_pos hr]
      simp
    have hr : refusesSlash last rest = false := by simpa using hr
    by_cases hl : isTooLong s
    · rw [advance_tooLong h0 h2 hr hl]
      simp
    have hl : isTooLong s = false := by simpa using hl
    rw [advance_cons h0 h2 hr hl]
    rcases he : fs.entryAt (here ++ [s]) with _ | _ | bytes | target
    · refine ⟨fun found hf hp => ?_, fun directory target rest' h => ?_⟩
      · by_cases hrest : rest = []
        · obtain ⟨hslash, hnul⟩ := hs s List.mem_cons_self
          rw [not_or] at h0
          have hname : isName s := by
            rw [isName, isPlain_iff.2 ⟨h0.1, h0.2, h2, hslash, hnul⟩, hl]
            rfl
          obtain rfl : Found.vacant here s = found := by simpa [hrest] using hf
          obtain rfl := Option.some.inj hp
          exact ⟨accepts_of_vacant hh hname he, by simp [he]⟩
        · simp [hrest] at hf
      · by_cases hrest : rest = [] <;> simp [hrest] at h
    · exact ih he hs.tail
    · refine ⟨fun found hf hp => ?_, fun directory target rest' h => ?_⟩
      · by_cases hrest : rest = []
        · obtain rfl : Found.entry (here ++ [s]) (.file bytes) = found := by simpa [hrest] using hf
          obtain rfl := Option.some.inj hp
          exact ⟨accepts_of_entryAt he (by simp), by simp [he]⟩
        · simp [hrest] at hf
      · by_cases hrest : rest = [] <;> simp [hrest] at h
    · refine ⟨fun found hf hp => ?_, fun directory target' rest' h => ?_⟩
      · by_cases hk : (rest = [] && last = .kept) = true
        · simp only [hk, if_true, Progress.arrived.injEq] at hf
          rw [← hf] at hp
          simp [Found.place] at hp
        · simp only [hk] at hf
          simp at hf
      · by_cases hk : (rest = [] && last = .kept) = true
        · simp only [hk, if_true] at h
          simp at h
        · simp only [hk] at h
          obtain ⟨rfl, rfl, rfl⟩ : here = directory ∧ target = target' ∧ rest = rest' := by
            simpa using h
          exact ⟨hh, ⟨_, he⟩, hs.tail⟩

theorem takesFile_of_walk (hf : fs.LinksHaveNoNul) {last : LastName} {links : Nat}
    {segments : List Text} (hh : fs.IsDirectory here) (hs : AreSegments segments) {found : Found}
    (hw : fs.walk last links here segments = .ok found) (hp : found.place = some p) :
    fs.TakesFile p := by
  fun_induction walk fs last links here segments with
  | case1 links here segments found' hadv =>
    obtain rfl := Except.ok.inj hw
    exact (takesFile_of_advance hh hs).1 found' hadv hp
  | case2 => simp at hw
  | case3 => simp at hw
  | case4 here segments directory target rest hadv links ih =>
    obtain ⟨hd, ⟨q, hq⟩, hrest⟩ := (takesFile_of_advance (p := []) hh hs).2 directory target rest hadv
    refine ih ?_ (fun s hsm => ?_) hw
    · split
      · exact fs.isDirectory_nil
      · exact hd
    · rcases List.mem_append.1 hsm with hsm | hsm
      · exact areSegments_segmentsOf (hf q target hq) s hsm
      · exact hrest s hsm

theorem climb_subset {last : LastName} {between : Nat} {segments rest : List Text}
    (h : climb last between segments = .reached rest) : rest ⊆ segments := by
  fun_induction climb last between segments with
  | case1 => simp at h
  | case2 between s rest' h0 ih => exact List.subset_cons_of_subset s (ih h)
  | case3 rest' h0 =>
    obtain rfl := Climb.reached.inj h
    exact List.subset_cons_self _ _
  | case4 rest' h0 between ih => exact List.subset_cons_of_subset _ (ih h)
  | case5 => simp at h
  | case6 => simp at h

/-- **A file can be set at the place that a path leads to.** -/
theorem takesFile_of_find (hf : fs.LinksHaveNoNul) (hc : cwd.IsIn fs) {last : LastName}
    {path : Text} (hn : hasNul path = false) {found : Found}
    (hfind : fs.find cwd last path = .ok found) (hp : found.place = some p) :
    fs.TakesFile p := by
  have hs := areSegments_segmentsOf hn
  unfold find at hfind
  split at hfind
  · simp at hfind
  · split at hfind
    · exact takesFile_of_walk hf fs.isDirectory_nil hs hfind hp
    · split at hfind
      · exact takesFile_of_walk hf hc hs hfind hp
      · split at hfind
        · obtain rfl := Except.ok.inj hfind
          simp [Found.place] at hp
        · rename_i rest hclimb
          exact takesFile_of_walk hf hc (fun s hsm => hs s (climb_subset hclimb hsm)) hfind hp
        · simp at hfind

/-! ## Writing and reading -/

variable {bytes : Bytes}

/-- **What has been written is read.** -/
theorem readFile_of_changeFile (hf : fs.LinksHaveNoNul) (hc : cwd.IsIn fs) {path : Text}
    (hn : hasNul path = false) (h : fs.changeFile cwd path (fun _ => bytes) = .ok gs) :
    gs.readFile cwd path = .ok bytes := by
  obtain ⟨found, p, -, hfind, hp, rfl, -⟩ := exists_place_of_changeFile h
  have ht := takesFile_of_find hf hc hn hfind hp
  have hg : (fs.put p (.file bytes)).entryAt p = some (.file bytes) := by
    rw [entryAt_put ht.accepts, if_pos rfl]
  rw [readFile, status, find_of_made (keeps_put ht.eq_file) hg hfind hp]
  rfl

end FileSystem

end ReplyLedger
