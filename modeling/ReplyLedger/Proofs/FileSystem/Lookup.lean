import ReplyLedger.Proofs.FileSystem.Ways
import ReplyLedger.Proofs.Text.Segments

/-!
# Looking up a settled location

The operating system finds at the path of a settled location what stands there, and nothing else:
no link is on the way, so the walk ends at the location, or in the directory in which it would be, or
is refused (`sighting_find`).
-/

namespace ReplyLedger

namespace FilePath

/-- The path of a location is written with a slash before each name. -/
theorem text_ofNames (p : Location) : (ofNames p).text = '/' :: Text.joinWith ['/'] p := rfl

theorem parent_ofNames (p : Location) : (ofNames p).parent = ofNames p.dropLast := rfl

end FilePath

namespace FileSystem

variable {fs : FileSystem}

/-! ## One name after the other -/

theorem advance_stay {s : Text} (hs : s = [] ∨ s = ['.']) (last : LastName) (here : Location)
    (rest : List Text) : fs.advance last here (s :: rest) = fs.advance last here rest := by
  rw [advance, if_pos (by simpa using hs)]

theorem advance_up (last : LastName) (here : Location) (rest : List Text) :
    fs.advance last here (['.', '.'] :: rest) = fs.advance last here.dropLast rest := by
  rw [advance, if_neg (by simp), if_pos rfl]

/-- Whether a call that makes a file refuses a name because of the slash after it. -/
def refusesSlash (last : LastName) (rest : List Text) : Bool :=
  last = .made && rest ≠ [] && rest.all List.isEmpty

/-- No name is refused because of a slash if there are names after every slash. -/
theorem refusesSlash_of_ne_nil (last : LastName) {rest : List Text} (h : ∀ s ∈ rest, s ≠ []) :
    refusesSlash last rest = false := by
  cases rest with
  | nil => simp [refusesSlash]
  | cons s rest => simp [refusesSlash, h s List.mem_cons_self]

theorem advance_tooLong {last : LastName} {s : Text} {rest : List Text}
    (h0 : ¬ (s = [] ∨ s = ['.'])) (h2 : s ≠ ['.', '.']) (hr : refusesSlash last rest = false)
    (hl : isTooLong s) (here : Location) :
    fs.advance last here (s :: rest) = .refused .nameTooLong := by
  rw [refusesSlash] at hr
  rw [advance, if_neg (by simpa using h0), if_neg h2, hr, if_neg Bool.false_ne_true, if_pos hl]

/-- What stands under a name decides how far the names lead from there. -/
theorem advance_cons {last : LastName} {s : Text} {rest : List Text} (h0 : ¬ (s = [] ∨ s = ['.']))
    (h2 : s ≠ ['.', '.']) (hr : refusesSlash last rest = false) (hl : isTooLong s = false)
    (here : Location) : fs.advance last here (s :: rest) =
      match fs.entryAt (here ++ [s]) with
      | none => if rest = [] then .arrived (.vacant here s) else .refused .noEntry
      | some .directory => fs.advance last (here ++ [s]) rest
      | some (.file bytes) =>
        if rest = [] then .arrived (.entry (here ++ [s]) (.file bytes)) else .refused .notDirectory
      | some (.link target) =>
        if rest = [] && last = .kept then .arrived (.entry (here ++ [s]) (.link target))
        else .atLink here target rest := by
  rw [refusesSlash] at hr
  rw [advance, if_neg (by simpa using h0), if_neg h2, hr, if_neg Bool.false_ne_true]
  exact if_neg (by simp [hl])

/-- A walk depends on how far the names lead. -/
theorem walk_congr {last : LastName} {here here' : Location} {segments segments' : List Text}
    (h : fs.advance last here segments = fs.advance last here' segments') (links : Nat) :
    fs.walk last links here segments = fs.walk last links here' segments' := by
  rw [walk, walk, h]

theorem walk_stay {s : Text} (hs : s = [] ∨ s = ['.']) (last : LastName) (links : Nat)
    (here : Location) (rest : List Text) :
    fs.walk last links here (s :: rest) = fs.walk last links here rest :=
  walk_congr (advance_stay hs last here rest) links

theorem walk_nil_cons (last : LastName) (links : Nat) (here : Location) (segments : List Text) :
    fs.walk last links here ([] :: segments) = fs.walk last links here segments :=
  walk_stay (.inl rfl) last links here segments

/-- Names that are joined by slashes are followed one by one. -/
theorem walk_segmentsOf_joinWith (last : LastName) (links : Nat) (here : Location)
    {names : List Text} (h : ∀ s ∈ names, '/' ∉ s) :
    fs.walk last links here (segmentsOf (Text.joinWith ['/'] names)) =
      fs.walk last links here names := by
  by_cases h0 : names = []
  · rw [h0]
    exact walk_nil_cons last links here []
  · rw [segmentsOf, Text.segments_joinWith h0 h]

theorem segmentsOf_slash_cons (t : Text) : segmentsOf ('/' :: t) = [] :: segmentsOf t := by
  rw [segmentsOf, Text.segments, if_pos rfl]
  rfl

/-- A path from the root is followed from there. -/
theorem find_slash_cons (cwd : CurrentDirectory) (last : LastName) (t : Text) :
    fs.find cwd last ('/' :: t) = fs.walk last maxLinks [] (segmentsOf t) := by
  have hr : isRooted ('/' :: t) = true := rfl
  unfold find
  rw [if_neg (List.cons_ne_nil _ _), if_pos hr, segmentsOf_slash_cons, walk_nil_cons]

/-- The path of a location is followed from the root, name by name. -/
theorem find_ofNames (cwd : CurrentDirectory) (last : LastName) {p : Location}
    (hp : ∀ s ∈ p, '/' ∉ s) :
    fs.find cwd last (FilePath.ofNames p).text = fs.walk last maxLinks [] p := by
  rw [FilePath.text_ofNames, find_slash_cons, walk_segmentsOf_joinWith last maxLinks [] hp]

/-- What looking up a settled location can come to. -/
inductive Sighting (fs : FileSystem) (p : Location) : Except Errno Found → Prop
  | entry {e : Entry} (h : fs.entryAt p = some e) : Sighting fs p (.ok (.entry p e))
  | vacant {directory : Location} {name : Text} (hd : fs.IsDirectory directory) (hn : isName name)
    (hp : directory ++ [name] = p) (h : fs.entryAt p = none) :
    Sighting fs p (.ok (.vacant directory name))
  | refused (error : Errno) : Sighting fs p (.error error)

/-- The progress of a walk that meets no link, as its outcome. -/
theorem walk_of_advance {last : LastName} {links : Nat} {here : Location} {segments : List Text} :
    (∀ found, fs.advance last here segments = .arrived found →
      fs.walk last links here segments = .ok found) ∧
    ∀ error, fs.advance last here segments = .refused error →
      fs.walk last links here segments = .error error := by
  constructor <;> intro x h <;> rw [walk, h]

theorem sighting_walk {last : LastName} {links : Nat} {segments : List Text} {here : Location}
    (hh : fs.IsDirectory here) (hs : fs.Settled (here ++ segments)) :
    fs.Sighting (here ++ segments) (fs.walk last links here segments) := by
  induction segments generalizing here with
  | nil =>
    rw [walk, advance, List.append_nil]
    exact .entry hh
  | cons s rest ih =>
    have hp := hs.isPlain s (by simp)
    obtain ⟨h0, h1, h2, -, -⟩ := isPlain_iff.1 hp
    have hpre : here ++ [s] <+: here ++ s :: rest := ⟨rest, by simp⟩
    have h01 : ¬ (s = [] ∨ s = ['.']) := by simp [h0, h1]
    have hne : refusesSlash last rest = false :=
      refusesSlash_of_ne_nil last fun u hu => (isPlain_iff.1 (hs.isPlain u (by simp [hu]))).1
    by_cases hl : isTooLong s
    · rw [walk_of_advance.2 _ (advance_tooLong h01 h2 hne hl here)]
      exact .refused _
    have hshort : isTooLong s = false := by simpa using hl
    have hadv := @advance_cons fs last s rest h01 h2 hne hshort here
    rcases he : fs.entryAt (here ++ [s]) with _ | _ | bytes | target
    · simp only [he] at hadv
      by_cases hr : rest = []
      · subst hr
        rw [walk_of_advance.1 _ (by simpa using hadv)]
        exact .vacant hh (by simp [isName, hp, hl]) rfl he
      · rw [if_neg hr] at hadv
        rw [walk_of_advance.2 _ hadv]
        exact .refused _
    · simp only [he] at hadv
      rw [walk, hadv, ← walk, List.append_cons]
      rw [List.append_cons] at hs
      exact ih he hs
    · simp only [he] at hadv
      by_cases hr : rest = []
      · subst hr
        rw [walk_of_advance.1 _ (by simpa using hadv)]
        exact .entry he
      · rw [if_neg hr] at hadv
        rw [walk_of_advance.2 _ hadv]
        exact .refused _
    · exact absurd he (hs.not_link _ target hpre)

/-- **At the path of a settled location, what stands there is found.** -/
theorem sighting_find (cwd : CurrentDirectory) (last : LastName) {p : Location}
    (hp : fs.Settled p) : fs.Sighting p (fs.find cwd last (FilePath.ofNames p).text) := by
  rw [find_ofNames cwd last (slash_not_mem hp.isPlain)]
  exact sighting_walk fs.isDirectory_nil hp

/-! ## Links to settled locations -/

/-- The segments of the path of a location are its names, and empty ones. -/
theorem filter_segmentsOf_ofNames {q : Location} (hq : ∀ s ∈ q, isPlain s) :
    (segmentsOf (FilePath.ofNames q).text).filter (· ≠ []) = q := by
  have hne : ∀ s ∈ q, s ≠ [] := fun s hs => (isPlain_iff.1 (hq s hs)).1
  rw [FilePath.text_ofNames, segmentsOf, Text.segments, if_pos rfl]
  by_cases h0 : q = []
  · simp [h0, Text.joinWith, Text.segments]
  · rw [Text.segments_joinWith h0 (slash_not_mem hq)]
    simpa using hne

/-- Links to settled locations make no loop. -/
theorem loopFree_of_settled (h : ∀ p target, fs.entryAt p = some (.link target) →
    ∃ q, fs.Settled q ∧ target = (FilePath.ofNames q).text) : fs.LoopFree := by
  intro here s target hl
  obtain ⟨q, hq, rfl⟩ := h _ _ hl
  -- what is left of the way is what is left of the location
  have invariant {w : Way} (hw : fs.Steps (wayOf here (FilePath.ofNames q).text) w) :
      w.1 ++ w.2.filter (· ≠ []) = q := by
    induction hw with
    | refl => exact filter_segmentsOf_ofNames hq.isPlain
    | tail _ hs ih =>
      cases hs with
      | stay hs =>
        rcases hs with rfl | rfl
        · simpa using ih
        · exact absurd (hq.isPlain ['.'] (by simp [← ih])) not_isPlain_dot
      | up => exact absurd (hq.isPlain ['.', '.'] (by simp [← ih])) not_isPlain_dots
      | down hp => simpa [(isPlain_iff.1 hp).1] using ih
      | @link here s target rest hl =>
        have hp := (isPlain_iff.1 (Step.isPlain_of_link hl)).1
        exact absurd hl (hq.not_link _ target ⟨rest.filter (· ≠ []), by simp [← ih, hp]⟩)
  rintro ⟨here', s', rest, hw, heq⟩
  rw [← heq] at hl
  have hp := (isPlain_iff.1 (Step.isPlain_of_link hl)).1
  have hinv := invariant hw
  exact hq.not_link _ _ ⟨rest.filter (· ≠ []), by simp [← hinv, hp]⟩ hl

end FileSystem

end ReplyLedger
