import ReplyLedger.Proofs.Operation.CanonicalPaths
import ReplyLedger.Workspace

/-!
# What canonical paths keep

Putting a path in canonical form keeps the segments that name something, in their order, and the
slash at the beginning, and leaves nothing else (`canonicalPath_keeps`). Paths with the same naming
segments come to the same wherever they are resolved, if both begin with a slash or neither does
(`FilePath.join_congr`, `Workspace.resolvePath_congr`); so a path comes to the same as its canonical
form does, whatever links there are.
-/

namespace ReplyLedger

open Text

variable {p s t u : Text} {sep : Char}

namespace Text

/-- A segment after a separator is not the first one. -/
theorem mem_tail_segments_append (t : Text) (hs : s ∈ segments sep u) :
    s ∈ (segments sep (t ++ sep :: u)).tail := by
  rw [segments_append, List.tail_append_of_ne_nil (segments_ne_nil sep t)]
  exact List.mem_append_right _ hs

/-- Between two separators in a row is an empty segment. -/
theorem nil_mem_tail_of_pair (h : [sep, sep] <:+: t) : [] ∈ (segments sep t).tail := by
  obtain ⟨before, after, rfl⟩ := h
  have hcons : before ++ [sep, sep] ++ after = before ++ sep :: sep :: after := by simp
  rw [hcons]
  refine mem_tail_segments_append before ?_
  rw [segments, if_pos rfl]
  exact List.mem_cons_self

/-- After a separator at the end is an empty segment. -/
theorem nil_mem_tail_of_suffix (h : [sep] <:+ t) : [] ∈ (segments sep t).tail := by
  obtain ⟨before, rfl⟩ := h
  exact mem_tail_segments_append before List.mem_cons_self

end Text

/-! ## The segments of a tidied path -/

theorem isNamingSegment_iff : isNamingSegment s ↔ s ≠ [] ∧ s ≠ ['.'] := by
  simp [isNamingSegment]

theorem naming_of_mem (hs : s ∈ namingSegments p) : isNamingSegment s ∧ '/' ∉ s :=
  ⟨(List.mem_filter.1 hs).2, not_mem_of_mem_segments (List.mem_filter.1 hs).1⟩

/-- A tidied path has an empty segment before its leading slash, and one if it names nothing. -/
theorem segments_tidied (p : Text) : segments '/' (tidied p) =
    (if p.head? = some '/' then [[]] else []) ++
      (if namingSegments p = [] then [[]] else namingSegments p) := by
  have hjoined : segments '/' (joinWith ['/'] (namingSegments p)) =
      if namingSegments p = [] then [[]] else namingSegments p := by
    split
    · rename_i hn
      rw [hn]
      rfl
    · rename_i hn
      exact segments_joinWith hn fun s hs => (naming_of_mem hs).2
  rw [tidied]
  split
  · rw [List.singleton_append, List.singleton_append, segments, if_pos rfl, hjoined]
  · rw [List.nil_append, List.nil_append, hjoined]

/-- The segments that are not empty are those that name something. -/
theorem filter_segments_tidied (p : Text) :
    (segments '/' (tidied p)).filter (· ≠ []) = namingSegments p := by
  have hnaming : (namingSegments p).filter (· ≠ []) = namingSegments p :=
    List.filter_eq_self.2 fun s hs => by
      simpa using (isNamingSegment_iff.1 (naming_of_mem hs).1).1
  have hrest : (if namingSegments p = [] then [[]] else namingSegments p).filter (· ≠ []) =
      namingSegments p := by
    split
    · rename_i hn
      rw [hn]
      rfl
    · exact hnaming
  rw [segments_tidied, List.filter_append, hrest]
  split <;> rfl

/-- No segment after the first is empty, unless the path is a slash. -/
theorem eq_slash_of_nil_mem_tail (h : [] ∈ (segments '/' (tidied p)).tail) : tidied p = ['/'] := by
  have hnaming : [] ∉ namingSegments p := fun hn =>
    (isNamingSegment_iff.1 (naming_of_mem hn).1).1 rfl
  rw [segments_tidied] at h
  by_cases hp : p.head? = some '/'
  · rw [if_pos hp, List.singleton_append, List.tail_cons] at h
    by_cases hn : namingSegments p = []
    · rw [tidied, if_pos hp, hn]
      rfl
    · rw [if_neg hn] at h
      exact absurd h hnaming
  · rw [if_neg hp, List.nil_append] at h
    split at h
    · simp at h
    · exact absurd (List.mem_of_mem_tail h) hnaming

theorem head?_tidied (p : Text) : (tidied p).head? = some '/' ↔ p.head? = some '/' := by
  rw [tidied]
  split
  · rename_i hp
    simp [hp]
  · rename_i hp
    simp only [hp, iff_false]
    exact head?_joinWith_ne_slash fun s hs => naming_of_mem hs

theorem namingSegments_tidied (p : Text) : namingSegments (tidied p) = namingSegments p := by
  have hfilter : namingSegments (tidied p) =
      ((segments '/' (tidied p)).filter (· ≠ [])).filter isNamingSegment := by
    rw [namingSegments, List.filter_filter]
    refine List.filter_congr fun s _ => ?_
    simp +contextual [isNamingSegment]
  rw [hfilter, filter_segments_tidied]
  exact List.filter_eq_self.2 fun s hs => (naming_of_mem hs).1

/-! ## Resolving -/

namespace FilePath

/-- A path begins at the root exactly if its text begins with a slash. -/
theorem isAbsolute_ofText (t : Text) : (ofText t).isAbsolute = decide (t.head? = some '/') := by
  rw [isAbsolute, ofText, anchorOf]
  cases t with
  | nil => rfl
  | cons c t =>
    by_cases hc : c = '/'
    · subst hc
      rw [List.takeWhile_cons_of_pos (by decide), List.length_cons]
      split <;> simp_all
    · rw [List.takeWhile_cons_of_neg (by simpa using hc)]
      simp [hc]

theorem isAbsolute_join (p q : FilePath) :
    (p.join q).isAbsolute = (p.isAbsolute || q.isAbsolute) := by
  rw [join]
  cases hq : q.isAbsolute
  · simp [isAbsolute]
  · simp [hq]

/-- Paths with the same naming segments lead along the same names from every directory, if both begin
with a slash or neither does. -/
theorem join_congr (root : FilePath) {p q : Text}
    (hh : p.head? = some '/' ↔ q.head? = some '/') (hn : namingSegments p = namingSegments q) :
    (root.join (ofText p)).isAbsolute = (root.join (ofText q)).isAbsolute ∧
      (root.join (ofText p)).names = (root.join (ofText q)).names := by
  have habsolute : (ofText p).isAbsolute = (ofText q).isAbsolute := by
    rw [isAbsolute_ofText, isAbsolute_ofText, decide_eq_decide]
    exact hh
  have hnames : (ofText p).names = (ofText q).names := hn
  refine ⟨by rw [isAbsolute_join, isAbsolute_join, habsolute], ?_⟩
  rw [join, join, habsolute]
  split
  · exact hnames
  · rw [hnames]

end FilePath

namespace Workspace

/-- Where a path is resolved to depends on its names, and on whether it begins at the root. -/
theorem resolvePath_congr {p q : FilePath} (ha : p.isAbsolute = q.isAbsolute)
    (hn : p.names = q.names) : resolvePath p = resolvePath q := by
  have habsolute : (do return (← absolutePath p).names : Action (List Text)) =
      do return (← absolutePath q).names := by
    rw [absolutePath, absolutePath, ha]
    cases hq : q.isAbsolute
    · rw [hq] at ha
      simp [FilePath.join, ha, hq, hn]
    · simp [hn]
  have hrooted : rootedSegments p = rootedSegments q := by
    rw [rootedSegments, rootedSegments, ha, hn, habsolute]
  rw [resolvePath, resolvePath, hrooted]

/-- **What a canonical path keeps**: exactly the segments that name something, those that go up among
them, and the slash at the beginning. Nothing else is left of backslashes, slashes and dots. So the
path comes to the same as it does without being put in canonical form, whatever path it is joined to,
and from the root of every workspace. -/
theorem canonicalPath_keeps (path : Text) :
    let p := slashed (strip path)
    (segments '/' (canonicalPath path)).filter (· ≠ []) =
        (segments '/' p).filter (fun s => s ≠ [] && s ≠ ['.']) ∧
      ((canonicalPath path).head? = some '/' ↔ p.head? = some '/') ∧
      '\\' ∉ canonicalPath path ∧
      ¬ ['/', '/'] <:+: canonicalPath path ∧
      ['.'] ∉ segments '/' (canonicalPath path) ∧
      (['/'] <:+ canonicalPath path → canonicalPath path = ['/']) ∧
      (∀ root : FilePath, resolvePath (root.join (.ofText (canonicalPath path))) =
        resolvePath (root.join (.ofText p))) ∧
      ∀ (fs : FileSystem) (w : Workspace),
        fs.resolve ((FilePath.ofNames w.root).join (.ofText (canonicalPath path))).names =
          fs.resolve ((FilePath.ofNames w.root).join (.ofText p)).names := by
  intro p
  rw [canonicalPath_eq_tidied]
  have hsegments := filter_segments_tidied p
  have hjoin (root : FilePath) :=
    root.join_congr (head?_tidied p) (namingSegments_tidied p)
  refine ⟨hsegments, head?_tidied p, ?_, ?_, ?_, ?_, ?_, ?_⟩
  · intro hc
    obtain ⟨c, -, hc⟩ := List.mem_map.1 ((tidied_sublist p).subset hc)
    split at hc
    · cases hc
    · exact absurd hc ‹_›
  · intro h
    rw [eq_slash_of_nil_mem_tail (nil_mem_tail_of_pair h)] at h
    exact absurd h.length_le (by decide)
  · intro h
    have hn : ['.'] ∈ namingSegments p := by
      rw [← hsegments]
      exact List.mem_filter.2 ⟨h, by decide⟩
    exact absurd (naming_of_mem hn).1 (by decide)
  · exact fun h => eq_slash_of_nil_mem_tail (nil_mem_tail_of_suffix h)
  · exact fun root => resolvePath_congr (hjoin root).1 (hjoin root).2
  · exact fun fs w => congrArg fs.resolve (hjoin (.ofNames w.root)).2

end Workspace

end ReplyLedger
