import ReplyLedger.FileSystem.Resolve
import Mathlib.Logic.Relation

/-!
# Ways through a file system

A path is followed step by step: a `Way` is the location that has been reached and the segments that
are left, and `Step` takes one segment, or puts the target of a link in the place of its name. What
is left behind a way does not matter to it (`Steps.append`).

In a file system without loops (`LoopFree`) no link is met on the way that its own target leads. With
loops, a single way may still meet none (`MeetsLoop`), and a way that has an end never does
(`Steps.not_meetsLoop`). A location is settled (`Settled`) if it is made of plain segments and no link
stands on the way to it.
-/

namespace ReplyLedger.FileSystem

variable {fs : FileSystem}

/-! ## Plain segments -/

theorem isPlain_iff {s : Text} :
    isPlain s ↔ s ≠ [] ∧ s ≠ ['.'] ∧ s ≠ ['.', '.'] ∧ '/' ∉ s ∧ hasNul s = false := by
  simp [isPlain, and_assoc]

theorem slash_not_mem {p : Location} (hp : ∀ s ∈ p, isPlain s) : ∀ s ∈ p, '/' ∉ s :=
  fun s hs => (isPlain_iff.1 (hp s hs)).2.2.2.1

theorem isPlain_of_isName {s : Text} (h : isName s) : isPlain s := by
  simp only [isName, Bool.and_eq_true] at h
  exact h.1

/-- The location of an entry is made of plain segments. -/
theorem isPlain_of_entryAt {p : Location} {e : Entry} (h : fs.entryAt p = some e) {s : Text}
    (hs : s ∈ p) : isPlain s := by
  by_cases hp : p = []
  · simp [hp] at hs
  · exact isPlain_of_isName (fs.isTree.isName _ ((entryAt_eq_some_iff hp).1 h) s hs)

/-- An entry stands in a directory. -/
theorem isDirectory_of_entryAt_concat {d : Location} {name : Text} {e : Entry}
    (h : fs.entryAt (d ++ [name]) = some e) : fs.IsDirectory d :=
  isDirectory_of_mem_append (List.cons_ne_nil name []) ((entryAt_eq_some_iff (by simp)).1 h)

/-! ## Steps -/

/-- How far a path has been followed: the location that it has led to, and the segments left. -/
abbrev Way := Location × List Text

/-- The way that the target of a link in the directory `here` leads. -/
def wayOf (here : Location) (target : Text) : Way :=
  (if isRooted target then [] else here, segmentsOf target)

/-- One step on a way. A segment that is no link is taken as it is written, also where nothing
stands. -/
inductive Step (fs : FileSystem) : Way → Way → Prop
  | stay {here : Location} {s : Text} {rest : List Text} (hs : s = [] ∨ s = ['.']) :
    Step fs (here, s :: rest) (here, rest)
  | up {here : Location} {rest : List Text} : Step fs (here, ['.', '.'] :: rest) (here.dropLast, rest)
  | down {here : Location} {s : Text} {rest : List Text} (hs : isPlain s)
    (h : ∀ target, fs.entryAt (here ++ [s]) ≠ some (.link target)) :
    Step fs (here, s :: rest) (here ++ [s], rest)
  | link {here : Location} {s target : Text} {rest : List Text}
    (h : fs.entryAt (here ++ [s]) = some (.link target)) :
    Step fs (here, s :: rest) ((wayOf here target).1, (wayOf here target).2 ++ rest)

theorem not_isPlain_dot : ¬ isPlain ['.'] := by decide

theorem not_isPlain_dots : ¬ isPlain ['.', '.'] := by decide

theorem Step.isPlain_of_link {here : Location} {s target : Text}
    (h : fs.entryAt (here ++ [s]) = some (.link target)) : isPlain s :=
  isPlain_of_entryAt h (by simp)

theorem Step.deterministic {w v v' : Way} (h : Step fs w v) (h' : Step fs w v') : v = v' := by
  cases h with
  | stay hs =>
    cases h' with
    | stay => rfl
    | up => simp at hs
    | down hp => rcases hs with rfl | rfl <;> simp [isPlain] at hp
    | link hl =>
      have hp := Step.isPlain_of_link hl
      rcases hs with rfl | rfl <;> simp [isPlain] at hp
  | up =>
    cases h' with
    | stay hs => simp at hs
    | up => rfl
    | down hp => exact absurd hp not_isPlain_dots
    | link hl => exact absurd (Step.isPlain_of_link hl) not_isPlain_dots
  | down hp hn =>
    cases h' with
    | stay hs => rcases hs with rfl | rfl <;> simp [isPlain] at hp
    | up => exact absurd hp not_isPlain_dots
    | down => rfl
    | link hl => exact absurd hl (hn _)
  | link hl =>
    have hp := Step.isPlain_of_link hl
    cases h' with
    | stay hs => rcases hs with rfl | rfl <;> simp [isPlain] at hp
    | up => exact absurd hp not_isPlain_dots
    | down _ hn => exact absurd hl (hn _)
    | link hl' =>
      obtain rfl := Entry.link.inj (Option.some.inj (hl.symm.trans hl'))
      rfl

theorem Step.append {w v : Way} (h : Step fs w v) (tail : List Text) :
    Step fs (w.1, w.2 ++ tail) (v.1, v.2 ++ tail) := by
  cases h with
  | stay hs => exact .stay hs
  | up => exact .up
  | down hp hn => exact .down hp hn
  | link hl =>
    rw [List.append_assoc]
    exact .link hl

/-- Any number of steps on a way. -/
abbrev Steps (fs : FileSystem) : Way → Way → Prop := Relation.ReflTransGen fs.Step

/-- What is left behind a way does not matter to it. -/
theorem Steps.append {w v : Way} (h : fs.Steps w v) (tail : List Text) :
    fs.Steps (w.1, w.2 ++ tail) (v.1, v.2 ++ tail) := by
  induction h with
  | refl => exact .refl
  | tail _ hs ih => exact ih.tail (hs.append tail)

/-! ## Where a way ends -/

/-- Whether the last name on a way is that of an entry, or of the place of one. -/
def LeadsTo (fs : FileSystem) (w : Way) (p : Location) : Prop :=
  ∃ here s, fs.Steps w (here, [s]) ∧ here ++ [s] = p

theorem LeadsTo.after {w v : Way} {p : Location} (h : fs.LeadsTo v p) (hw : fs.Steps w v) :
    fs.LeadsTo w p := by
  obtain ⟨here, s, hsteps, rfl⟩ := h
  exact ⟨here, s, hw.trans hsteps, rfl⟩

/-! ## Loops -/

/-- Whether a way leads through an entry, or the place of one. -/
def LeadsThrough (fs : FileSystem) (w : Way) (p : Location) : Prop :=
  ∃ here s rest, fs.Steps w (here, s :: rest) ∧ here ++ [s] = p

/-- No link is met on the way that its own target leads. -/
def LoopFree (fs : FileSystem) : Prop :=
  ∀ here s target, fs.entryAt (here ++ [s]) = some (.link target) →
    ¬ fs.LeadsThrough (wayOf here target) (here ++ [s])

/-- Whether a way meets a link that is met again on the way that its own target leads. -/
def MeetsLoop (fs : FileSystem) (w : Way) : Prop :=
  ∃ here s target, fs.entryAt (here ++ [s]) = some (.link target) ∧
    fs.LeadsThrough w (here ++ [s]) ∧ fs.LeadsThrough (wayOf here target) (here ++ [s])

theorem LoopFree.not_meetsLoop (h : fs.LoopFree) (w : Way) : ¬ fs.MeetsLoop w := by
  rintro ⟨here, s, target, hl, -, hback⟩
  exact h here s target hl hback

/-- Every point of a way leads to its end. -/
theorem Steps.to_end {w v : Way} {p : Location} (hp : fs.Steps w (p, [])) (hv : fs.Steps w v) :
    fs.Steps v (p, []) := by
  induction hv using Relation.ReflTransGen.head_induction_on with
  | refl => exact hp
  | head h _ ih =>
    rcases Relation.ReflTransGen.cases_head hp with rfl | ⟨u, h', hu⟩
    · cases h
    · exact ih (h.deterministic h' ▸ hu)

/-- A way with an end has only so many steps. -/
theorem Steps.acc {w : Way} {p : Location} (h : fs.Steps w (p, [])) :
    Acc (fun v u => fs.Step u v) w := by
  induction h using Relation.ReflTransGen.head_induction_on with
  | refl => exact .intro _ fun v hv => by cases hv
  | head h _ ih => exact .intro _ fun v hv => h.deterministic hv ▸ ih

/-- A link on the way of its own target is met again and again, each time with more segments left. -/
theorem not_acc_of_loop {here : Location} {s target : Text}
    (hl : fs.entryAt (here ++ [s]) = some (.link target))
    (hback : fs.LeadsThrough (wayOf here target) (here ++ [s])) {w : Way}
    (hw : Acc (Relation.TransGen fun v u => fs.Step u v) w) : ∀ rest, w ≠ (here, s :: rest) := by
  obtain ⟨here', s', tail, hsteps, he⟩ := hback
  obtain ⟨rfl, heq⟩ := List.append_inj' he rfl
  obtain rfl : s' = s := List.singleton_inj.1 heq
  induction hw with
  | intro w _ ih =>
    rintro rest rfl
    have hround : Relation.TransGen fs.Step (here', s' :: rest) (here', s' :: tail ++ rest) :=
      .head' (.link hl) (hsteps.append rest)
    exact ih _ (Relation.transGen_swap.2 hround) (tail ++ rest) rfl

/-- **A way with an end meets no loop.** -/
theorem Steps.not_meetsLoop {w : Way} {p : Location} (h : fs.Steps w (p, [])) :
    ¬ fs.MeetsLoop w := by
  rintro ⟨here, s, target, hl, ⟨here', s', rest, hsteps, he⟩, hback⟩
  obtain ⟨rfl, heq⟩ := List.append_inj' he rfl
  obtain rfl : s' = s := List.singleton_inj.1 heq
  exact not_acc_of_loop hl hback (h.to_end hsteps).acc.transGen rest rfl

/-! ## Settled locations -/

/-- A location made of plain segments without a link on the way to it or at it. -/
structure Settled (fs : FileSystem) (p : Location) : Prop where
  isPlain : ∀ s ∈ p, isPlain s
  not_link : ∀ q target, q <+: p → fs.entryAt q ≠ some (.link target)

namespace Settled

theorem nil (fs : FileSystem) : fs.Settled [] := by
  refine ⟨by simp, fun q target hq => ?_⟩
  rw [List.prefix_nil.1 hq, entryAt_nil]
  simp

theorem above {p q : Location} (h : fs.Settled p) (hq : q <+: p) : fs.Settled q :=
  ⟨fun s hs => h.isPlain s (hq.subset hs), fun r target hr => h.not_link r target (hr.trans hq)⟩

theorem dropLast {p : Location} (h : fs.Settled p) : fs.Settled p.dropLast :=
  h.above (List.dropLast_prefix p)

theorem snoc {p : Location} (h : fs.Settled p) {s : Text} (hs : FileSystem.isPlain s)
    (hl : ∀ target, fs.entryAt (p ++ [s]) ≠ some (.link target)) : fs.Settled (p ++ [s]) := by
  refine ⟨fun u hu => ?_, fun q target hq => ?_⟩
  · rcases List.mem_append.1 hu with hu | hu
    · exact h.isPlain u hu
    · rwa [List.mem_singleton.1 hu]
  · rcases List.prefix_concat_iff.1 hq with rfl | hq
    · exact hl target
    · exact h.not_link q target hq

/-- A directory is at a settled location. -/
theorem of_isDirectory {p : Location} (h : fs.IsDirectory p) : fs.Settled p := by
  refine ⟨fun s hs => isPlain_of_isName (isName_of_isDirectory h hs), ?_⟩
  rintro q target ⟨r, rfl⟩ hl
  by_cases hr : r = []
  · rw [hr, List.append_nil, IsDirectory, hl] at h
    simp at h
  · have hq : ¬ fs.IsDirectory q := by
      rw [IsDirectory, hl]
      simp
    rw [IsDirectory, entryAt_append_eq_none hq hr] at h
    simp at h

/-- Every entry but a link is at a settled location. -/
theorem of_entryAt {p : Location} {e : Entry} (h : fs.entryAt p = some e)
    (hl : ∀ target, e ≠ .link target) : fs.Settled p := by
  rcases List.eq_nil_or_concat p with rfl | ⟨d, name, rfl⟩
  · exact .nil fs
  · rw [List.concat_eq_append] at h ⊢
    refine (of_isDirectory (isDirectory_of_entryAt_concat h)).snoc
      (isPlain_of_entryAt h (by simp)) fun target ht => ?_
    exact hl target (Option.some.inj (h.symm.trans ht))

/-- The names of a settled location lead down to it. -/
theorem steps {here names : Location} (h : fs.Settled (here ++ names)) (rest : List Text) :
    fs.Steps (here, names ++ rest) (here ++ names, rest) := by
  induction names generalizing here with
  | nil => rw [List.append_nil, List.nil_append]
  | cons s names ih =>
    rw [List.append_cons] at h ⊢
    exact .head (.down (h.isPlain s (by simp)) fun target =>
      h.not_link _ target (List.prefix_append _ names)) (ih h)

/-- On the way to a settled location, what is left is what is left of the location. -/
theorem append_of_steps {p : Location} (h : fs.Settled p) {w : Way} (hw : fs.Steps ([], p) w) :
    w.1 ++ w.2 = p := by
  induction hw with
  | refl => rfl
  | tail _ hs ih =>
    cases hs with
    | @stay here s rest hs =>
      have hp := isPlain_iff.1 (h.isPlain s (by simp [← ih]))
      exact absurd hs (by simp [hp.1, hp.2.1])
    | up => exact absurd (h.isPlain _ (by simp [← ih])) not_isPlain_dots
    | down => simpa using ih
    | @link here s target rest hl => exact absurd hl (h.not_link _ target ⟨rest, by simp [← ih]⟩)

/-- The way to a settled location leads there. -/
theorem eq_of_leadsTo {p q : Location} (h : fs.Settled p) (hq : fs.LeadsTo ([], p) q) : q = p := by
  obtain ⟨here, s, hsteps, rfl⟩ := hq
  exact h.append_of_steps hsteps

end Settled

end ReplyLedger.FileSystem
