import ReplyLedger.Proofs.FileSystem.Lookup

/-!
# Going on from a directory

A path that is written for its names leads where the names do (`find_text`). Names that lead to a
directory lead there also when more names follow (`walk_append`), through the same directories and
links, so in every file system that keeps these (`Keeps`).
-/

namespace ReplyLedger

namespace FilePath

/-! ## Paths and their texts -/

/-- Whether the names of a path are segments that a text can write: dots that go up, or names. -/
def IsProper (p : FilePath) : Prop :=
  ∀ s ∈ p.names, s ≠ [] ∧ s ≠ ['.'] ∧ '/' ∉ s ∧ FileSystem.hasNul s = false

theorem isProper_ofText {t : Text} (h : FileSystem.hasNul t = false) : (ofText t).IsProper := by
  intro s hs
  obtain ⟨hs, hn⟩ := List.mem_filter.1 hs
  simp only [Bool.and_eq_true, decide_eq_true_eq] at hn
  refine ⟨hn.1, hn.2, Text.not_mem_of_mem_segments hs, ?_⟩
  rw [FileSystem.hasNul, ← Bool.not_eq_true, List.contains_iff_mem] at h ⊢
  exact fun hc => h (Text.mem_of_mem_segments hs hc)

theorem isProper_of_isPlain {p : FilePath} (h : ∀ s ∈ p.names, FileSystem.isPlain s) :
    p.IsProper := by
  intro s hs
  obtain ⟨h0, h1, -, h3, h4⟩ := FileSystem.isPlain_iff.1 (h s hs)
  exact ⟨h0, h1, h3, h4⟩

theorem IsProper.child {p : FilePath} (h : p.IsProper) {name : Text}
    (hn : FileSystem.isPlain name) : (p.child name).IsProper := by
  intro s hs
  rcases List.mem_append.1 hs with hs | hs
  · exact h s hs
  · exact isProper_of_isPlain (p := ⟨p.anchor, [name]⟩) (by simpa using hn) s hs

theorem hasNul_text {p : FilePath} (h : p.IsProper) : FileSystem.hasNul p.text = false := by
  have hjoin : '\x00' ∉ p.anchor.text ++ Text.joinWith ['/'] p.names := by
    intro hc
    rcases List.mem_append.1 hc with hc | hc
    · cases ha : p.anchor <;> simp [ha, Anchor.text] at hc
    · rcases Text.mem_joinWith hc with hc | ⟨s, hs, hc⟩
      · simp at hc
      · have hn := (h s hs).2.2.2
        rw [FileSystem.hasNul, ← Bool.not_eq_true, List.contains_iff_mem] at hn
        exact hn hc
  rw [FileSystem.hasNul, ← Bool.not_eq_true, List.contains_iff_mem, text]
  split
  · decide
  · exact hjoin

theorem hasNul_ofNames {q : Location} (hq : ∀ s ∈ q, FileSystem.isPlain s) :
    FileSystem.hasNul (ofNames q).text = false := hasNul_text (isProper_of_isPlain hq)

/-- A name that holds a NUL character leaves it in the path. -/
theorem hasNul_text_child {p : FilePath} {name : Text} (h : FileSystem.hasNul name) :
    FileSystem.hasNul (p.child name).text := by
  rw [FileSystem.hasNul, List.contains_iff_mem] at h ⊢
  have hjoin : '\x00' ∈ (p.child name).anchor.text ++ Text.joinWith ['/'] (p.child name).names :=
    List.mem_append_right _ (Text.mem_joinWith_of_mem (s := name) (by simp [child]) h)
  rw [text]
  split
  · rename_i he
    simp [he] at hjoin
  · exact hjoin

end FilePath

namespace FileSystem

variable {fs gs : FileSystem} {cwd : CurrentDirectory} {p q : Location}

/-- Names are joined to a text that does not begin with a slash. -/
theorem joinWith_unrooted {s : Text} (h0 : s ≠ []) (hs : '/' ∉ s) (rest : List Text) :
    Text.joinWith ['/'] (s :: rest) ≠ [] ∧
      isRooted (Text.joinWith ['/'] (s :: rest)) = false := by
  obtain ⟨c, s, rfl⟩ := List.exists_cons_of_ne_nil h0
  have hjoin : ∃ t, Text.joinWith ['/'] ((c :: s) :: rest) = c :: t := by
    cases rest with
    | nil => exact ⟨s, rfl⟩
    | cons u rest => exact ⟨_, rfl⟩
  obtain ⟨t, ht⟩ := hjoin
  rw [ht, isRooted]
  refine ⟨List.cons_ne_nil c t, ?_⟩
  simp only [List.head?_cons, beq_eq_false_iff_ne, ne_eq, Option.some.injEq]
  rintro rfl
  exact hs List.mem_cons_self

/-- What the names of a path lead to, as seen from the current directory. -/
def findNames (fs : FileSystem) (cwd : CurrentDirectory) (last : LastName) (p : FilePath) :
    Except Errno Found :=
  match p.anchor, cwd with
  | .relative, .present here => walk fs last maxLinks here p.names
  | .relative, .removed above between =>
    match climb last between p.names with
    | .removed => .ok .removed
    | .reached rest => walk fs last maxLinks above rest
    | .refused error => .error error
  | _, _ => walk fs last maxLinks [] p.names

/-- The text of a path leads to what its names lead to. -/
theorem find_text {path : FilePath} (hp : path.IsProper) (last : LastName) :
    fs.find cwd last path.text = fs.findNames cwd last path := by
  obtain ⟨anchor, names⟩ := path
  have hslash : ∀ s ∈ names, '/' ∉ s := fun s hs => (hp s hs).2.2.1
  have hrooted := @walk_segmentsOf_joinWith fs last maxLinks [] names hslash
  cases anchor with
  | relative =>
    cases names with
    | nil =>
      cases cwd with
      | present here =>
        have hstay : fs.walk last maxLinks here [['.']] = fs.walk last maxLinks here [] :=
          walk_stay (.inr rfl) last maxLinks here []
        exact hstay
      | removed above between => rfl
    | cons s rest =>
      obtain ⟨h0, -, h2, -⟩ := hp s List.mem_cons_self
      obtain ⟨hne, hroot⟩ := joinWith_unrooted h0 h2 rest
      have htext : FilePath.text ⟨.relative, s :: rest⟩ = Text.joinWith ['/'] (s :: rest) := by
        obtain ⟨c, t, ht⟩ := List.exists_cons_of_ne_nil hne
        rw [FilePath.text, FilePath.Anchor.text, List.nil_append, ht]
      have hsegments := Text.segments_joinWith (List.cons_ne_nil s rest) hslash
      rw [htext]
      unfold find
      rw [if_neg hne, hroot, if_neg Bool.false_ne_true, segmentsOf, hsegments]
      cases cwd <;> rfl
  | root =>
    have htext : FilePath.text ⟨.root, names⟩ = '/' :: Text.joinWith ['/'] names := rfl
    rw [htext, find_slash_cons]
    exact hrooted
  | doubleRoot =>
    have htext : FilePath.text ⟨.doubleRoot, names⟩ = '/' :: '/' :: Text.joinWith ['/'] names := rfl
    rw [htext, find_slash_cons, segmentsOf_slash_cons, walk_nil_cons]
    exact hrooted

/-! ## Going on from a directory -/

/-- What a walk meets on its way to a directory is still there: directories and links. -/
def Keeps (fs gs : FileSystem) : Prop :=
  ∀ r e, fs.entryAt r = some e → (∀ bytes, e ≠ .file bytes) → gs.entryAt r = some e

theorem Keeps.refl (fs : FileSystem) : fs.Keeps fs := fun _ _ h _ => h

/-- Whether more names may follow where a path leads to a directory: a call that only looks may also
end there. -/
def GoesOn (last : LastName) (more : List Text) : Prop := last = .followed ∨ ∃ s ∈ more, s ≠ []

theorem GoesOn.refusesSlash {last : LastName} {more : List Text} (h : GoesOn last more)
    (rest : List Text) : refusesSlash last (rest ++ more) = false := by
  rcases h with rfl | ⟨s, hs, h0⟩
  · rfl
  · have hall : (rest ++ more).all List.isEmpty = false := by
      rw [List.all_eq_false]
      exact ⟨s, List.mem_append_right rest hs, by simpa using h0⟩
    rw [FileSystem.refusesSlash, hall, Bool.and_false]

theorem GoesOn.not_kept {last : LastName} {more : List Text} (h : GoesOn last more)
    (rest : List Text) : (rest ++ more = [] && last = .kept) = false := by
  rcases h with rfl | ⟨s, hs, -⟩
  · simp
  · have hne : rest ++ more ≠ [] := List.append_ne_nil_of_right_ne_nil rest (List.ne_nil_of_mem hs)
    simp [hne]

/-- Names that lead to a directory, or to a link on the way to one, lead there also when more names
follow. -/
theorem advance_append (hk : fs.Keeps gs) {last : LastName} {more : List Text}
    (hm : GoesOn last more) (segments : List Text) (here : Location) :
    (∀ q, fs.advance .followed here segments = .arrived (.entry q .directory) →
      gs.advance last here (segments ++ more) = gs.advance last q more) ∧
    ∀ directory target rest, fs.advance .followed here segments = .atLink directory target rest →
      gs.advance last here (segments ++ more) = .atLink directory target (rest ++ more) := by
  induction segments generalizing here with
  | nil =>
    rw [advance]
    refine ⟨fun q hq => ?_, fun directory target rest h => by simp at h⟩
    obtain rfl : here = q := by simpa using hq
    rfl
  | cons s rest ih =>
    rw [List.cons_append]
    by_cases h0 : s = [] ∨ s = ['.']
    · rw [advance_stay h0, advance_stay h0]
      exact ih here
    by_cases h2 : s = ['.', '.']
    · subst h2
      rw [advance_up, advance_up]
      exact ih here.dropLast
    by_cases hl : isTooLong s
    · rw [advance_tooLong h0 h2 rfl hl]
      simp
    have hl : isTooLong s = false := by simpa using hl
    rw [advance_cons h0 h2 rfl hl, advance_cons h0 h2 (hm.refusesSlash rest) hl]
    rcases he : fs.entryAt (here ++ [s]) with _ | _ | bytes | target
    · by_cases hr : rest = [] <;> simp [hr]
    · rw [hk _ _ he (by simp)]
      exact ih (here ++ [s])
    · by_cases hr : rest = [] <;> simp [hr]
    · rw [hk _ _ he (by simp)]
      simp only [hm.not_kept rest]
      simp

/-- A walk to a directory goes on from there when more names follow. -/
theorem walk_append (hk : fs.Keeps gs) {last : LastName} {more : List Text}
    (hm : GoesOn last more) {links : Nat} {here : Location} {segments : List Text}
    (h : fs.walk .followed links here segments = .ok (.entry q .directory)) :
    ∃ left, gs.walk last links here (segments ++ more) = gs.walk last left q more := by
  induction links generalizing here segments with
  | zero =>
    have ha := advance_append hk hm segments here
    rw [walk] at h
    rcases hadv : fs.advance .followed here segments with found | error | ⟨directory, target, rest⟩
    · rw [hadv] at h
      exact ⟨0, walk_congr (ha.1 q (by rw [hadv, Except.ok.inj h])) 0⟩
    · simp [hadv] at h
    · simp [hadv] at h
  | succ links ih =>
    have ha := advance_append hk hm segments here
    rw [walk] at h
    rcases hadv : fs.advance .followed here segments with found | error | ⟨directory, target, rest⟩
    · rw [hadv] at h
      exact ⟨links + 1, walk_congr (ha.1 q (by rw [hadv, Except.ok.inj h])) (links + 1)⟩
    · simp [hadv] at h
    · rw [hadv] at h
      obtain ⟨left, hleft⟩ := ih h
      refine ⟨left, ?_⟩
      rw [walk, ha.2 directory target rest hadv, ← hleft, List.append_assoc]

theorem climb_stay {s : Text} (hs : s = [] ∨ s = ['.']) (last : LastName) (between : Nat)
    (rest : List Text) : climb last between (s :: rest) = climb last between rest := by
  rcases hs with rfl | rfl <;> rfl

/-- Segments that lead out of removed directories do so also when more follow. -/
theorem climb_append {between : Nat} {segments rest : List Text}
    (h : climb .followed between segments = .reached rest) (last : LastName) (more : List Text) :
    climb last between (segments ++ more) = .reached (rest ++ more) := by
  induction segments generalizing between with
  | nil => simp [climb] at h
  | cons s segments ih =>
    rw [List.cons_append]
    by_cases h0 : s = [] ∨ s = ['.']
    · rw [climb_stay h0] at h ⊢
      exact ih h
    by_cases h2 : s = ['.', '.']
    · subst h2
      cases between with
      | zero =>
        obtain rfl := Climb.reached.inj h
        rfl
      | succ between => exact ih h
    · simp [climb, h0, h2] at h

/-! ## The last name -/

/-- What a call finds that treats the last name in its own way: it may be refused, if it makes a
file, and finds a link, if it keeps it. -/
inductive Differs : LastName → Except Errno Found → Prop
  | refused (error : Errno) : Differs .made (.error error)
  | link (r : Location) (target : Text) : Differs .kept (.ok (.entry r (.link target)))

/-- What is done with the last name makes a difference only where there is a slash after it, or a
link. -/
theorem advance_last (fs : FileSystem) (last : LastName) (segments : List Text) (here : Location) :
    fs.advance last here segments = fs.advance .followed here segments ∨
      (last = .made ∧ ∃ error, fs.advance last here segments = .refused error) ∨
      last = .kept ∧ ∃ r target, fs.advance last here segments = .arrived (.entry r (.link target)) := by
  induction segments generalizing here with
  | nil => exact .inl rfl
  | cons s rest ih =>
    by_cases h0 : s = [] ∨ s = ['.']
    · rw [advance_stay h0, advance_stay h0]
      exact ih here
    by_cases h2 : s = ['.', '.']
    · subst h2
      rw [advance_up, advance_up]
      exact ih here.dropLast
    by_cases hr : refusesSlash last rest
    · simp only [refusesSlash, Bool.and_eq_true, decide_eq_true_eq] at hr
      refine .inr (.inl ⟨hr.1.1, .isDirectory, ?_⟩)
      rw [advance, if_neg (by simpa using h0), if_neg h2, if_pos (by simpa using hr)]
    have hr : refusesSlash last rest = false := by simpa using hr
    by_cases hl : isTooLong s
    · rw [advance_tooLong h0 h2 hr hl, advance_tooLong h0 h2 rfl hl]
      exact .inl rfl
    have hl : isTooLong s = false := by simpa using hl
    rw [advance_cons h0 h2 hr hl, advance_cons h0 h2 rfl hl]
    rcases fs.entryAt (here ++ [s]) with _ | _ | bytes | target
    · exact .inl rfl
    · exact ih (here ++ [s])
    · exact .inl rfl
    · by_cases hk : rest = [] ∧ last = .kept
      · exact .inr (.inr ⟨hk.2, here ++ [s], target, by simp [hk]⟩)
      · exact .inl (by simp [hk])

theorem walk_last (fs : FileSystem) (last : LastName) (links : Nat) (here : Location)
    (segments : List Text) :
    fs.walk last links here segments = fs.walk .followed links here segments ∨
      Differs last (fs.walk last links here segments) := by
  induction links generalizing here segments with
  | zero =>
    rcases advance_last fs last segments here with ha | ⟨rfl, error, ha⟩ | ⟨rfl, r, target, ha⟩
    · exact .inl (by rw [walk, walk, ha])
    · exact .inr (walk_of_advance.2 _ ha ▸ .refused error)
    · exact .inr (walk_of_advance.1 _ ha ▸ .link r target)
  | succ links ih =>
    rcases advance_last fs last segments here with ha | ⟨rfl, error, ha⟩ | ⟨rfl, r, target, ha⟩
    · rw [walk, walk, ha]
      split
      · exact .inl rfl
      · exact .inl rfl
      · exact ih _ _
    · exact .inr (walk_of_advance.2 _ ha ▸ .refused error)
    · exact .inr (walk_of_advance.1 _ ha ▸ .link r target)

/-- Removed directories are left in the same way, unless a slash at the end is refused. -/
theorem climb_last (last : LastName) (between : Nat) (segments : List Text) :
    climb last between segments = climb .followed between segments ∨
      last = .made ∧ ∃ error, climb last between segments = .refused error := by
  fun_induction climb last between segments <;> simp_all [climb]

/-- **What a call finds is what one finds that follows all names**, unless it treats the last name in
its own way. -/
theorem find_last (fs : FileSystem) (cwd : CurrentDirectory) (last : LastName) (path : Text) :
    fs.find cwd last path = fs.find cwd .followed path ∨ Differs last (fs.find cwd last path) := by
  unfold find
  split
  · exact .inl rfl
  · split
    · exact walk_last fs last maxLinks [] (segmentsOf path)
    · split
      · rename_i here
        exact walk_last fs last maxLinks here (segmentsOf path)
      · rename_i above between
        rcases climb_last last between (segmentsOf path) with hc | ⟨rfl, error, hc⟩
        · rw [hc]
          rcases climb .followed between (segmentsOf path) with _ | rest | error
          · exact .inl rfl
          · exact walk_last fs last maxLinks above rest
          · exact .inl rfl
        · rw [hc]
          exact .inr (.refused error)

/-- What is found is found by following all names, unless it is a link that is kept. -/
theorem find_followed {fs : FileSystem} {cwd : CurrentDirectory} {last : LastName} {path : Text}
    {found : Found} (hf : fs.find cwd last path = .ok found) :
    fs.find cwd .followed path = .ok found ∨
      last = .kept ∧ ∃ r target, found = .entry r (.link target) := by
  rcases find_last fs cwd last path with hl | hd
  · exact .inl (hl.symm.trans hf)
  · rw [hf] at hd
    cases hd with
    | link r target => exact .inr ⟨rfl, r, target, rfl⟩

end FileSystem

end ReplyLedger
