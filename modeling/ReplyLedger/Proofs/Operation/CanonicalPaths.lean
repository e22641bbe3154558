import ReplyLedger.Proofs.Text.Segments
import ReplyLedger.Proofs.Text.Strip

/-!
# When a canonical path is in canonical form

Putting a path in canonical form takes away the blanks around it first and segments that name nothing
after that (`canonicalPath_eq_tidied`), so a blank at the edge of a segment can come to stand at the
edge of the path. What is done after the blanks is done once and for all (`tidied_tidied`), and never
adds anything (`tidied_sublist`). So the canonical form of a path stays as it is exactly if there are no blanks
around it (`canonicalPath_canonicalPath_iff`). That is so if no segment of the path as it was written
has blanks around it (`strip_canonicalPath_of_segments`).
-/

namespace ReplyLedger

open Text

variable {p q s t : Text} {l l' : List Text}

namespace Text

/-- Texts joined without some of them are what is left of all of them joined. -/
theorem joinWith_sublist {sep : Text} (h : l.Sublist l') :
    (joinWith sep l).Sublist (joinWith sep l') := by
  induction h with
  | slnil => exact List.Sublist.refl _
  | @cons l l' s h ih =>
    cases l' with
    | nil => exact ih.trans (List.nil_sublist _)
    | cons t r => exact ih.trans (List.sublist_append_right _ _)
  | @cons_cons l l' s h ih =>
    cases l with
    | nil => exact (infix_joinWith_of_mem List.mem_cons_self).sublist
    | cons t r =>
      obtain ⟨u, v, rfl⟩ := List.exists_cons_of_ne_nil (List.ne_nil_of_mem (h.subset (.head _)))
      exact ih.append_left (s ++ sep)

theorem stripLeft_of_strip (h : strip t = t) : stripLeft t = t := by
  obtain ⟨x, -, hx⟩ := exists_eq_append_stripRight (stripLeft t)
  have hprefix : t <+: stripLeft t := by
    rw [← strip, h] at hx
    exact ⟨x, hx.symm⟩
  have hsuffix : stripLeft t <:+ t := List.dropWhile_suffix _
  exact hsuffix.eq_of_length_le hprefix.length_le

theorem stripRight_of_strip (h : strip t = t) : stripRight t = t := by
  rw [strip, stripLeft_of_strip h] at h
  exact h

/-- Texts without blanks around them are joined to one. -/
theorem strip_joinWith {sep : Text} (h : ∀ s ∈ l, strip s = s ∧ s ≠ []) :
    strip (joinWith sep l) = joinWith sep l := by
  induction l with
  | nil => rfl
  | cons s l ih =>
    obtain ⟨⟨hs, hs0⟩, hl⟩ := List.forall_mem_cons.1 h
    cases l with
    | nil => exact hs
    | cons t r =>
      have hrest := ih hl
      have hne : joinWith sep (t :: r) ≠ [] := by
        intro he
        have ht : t <:+: joinWith sep (t :: r) := infix_joinWith_of_mem List.mem_cons_self
        rw [he, List.infix_nil] at ht
        exact (hl t List.mem_cons_self).2 ht
      rw [joinWith, strip_append_append (hs.symm ▸ hs0) (hrest.symm ▸ hne), stripLeft_of_strip hs,
        stripRight_of_strip hrest]

end Text

/-! ## After the blanks -/

/-- Whether a segment of a path names anything: it is neither empty nor `.`. -/
def isNamingSegment (s : Text) : Bool := s ≠ [] && s ≠ ['.']

/-- The segments of a path that name something. -/
def namingSegments (p : Text) : List Text := (segments '/' p).filter isNamingSegment

/-- The path without the segments that name nothing, and without a slash at its end. -/
def tidied (p : Text) : Text :=
  (if p.head? = some '/' then ['/'] else []) ++ joinWith ['/'] (namingSegments p)

/-! ### The steps of a canonical path -/

theorem head?_collapseSlashes (p : Text) : (collapseSlashes p).head? = p.head? := by
  induction p with
  | nil => rfl
  | cons c t ih =>
    rw [collapseSlashes]
    split
    · rename_i hc
      simp only [Bool.and_eq_true, decide_eq_true_eq] at hc
      rw [ih, hc.2, hc.1, List.head?_cons]
    · rfl

/-- The first segment of a path that goes on is empty exactly if the path begins with a slash. -/
theorem head?_segments_cons (c : Char) (t : Text) :
    (segments '/' (c :: t)).head? = some [] ↔ c = '/' := by
  by_cases hc : c = '/'
  · simp [segments, hc]
  · obtain ⟨s, r, hr⟩ := List.exists_cons_of_ne_nil (segments_ne_nil '/' t)
    simp [segments_cons_of_ne hc hr, hc]

/-- Collapsing slashes keeps the first segment, and of the others those that name something. -/
theorem segments_collapseSlashes (p : Text) :
    (segments '/' (collapseSlashes p)).head? = (segments '/' p).head? ∧
      (segments '/' (collapseSlashes p)).tail.filter isNamingSegment =
        (segments '/' p).tail.filter isNamingSegment := by
  induction p with
  | nil => exact ⟨rfl, rfl⟩
  | cons c t ih =>
    obtain ⟨s, r, hr⟩ := List.exists_cons_of_ne_nil (segments_ne_nil '/' t)
    obtain ⟨s', r', hr'⟩ := List.exists_cons_of_ne_nil (segments_ne_nil '/' (collapseSlashes t))
    rw [hr, hr', List.head?_cons, List.head?_cons, List.tail_cons, List.tail_cons] at ih
    obtain ⟨hs, hrest⟩ := ih
    obtain rfl := Option.some.inj hs
    rw [collapseSlashes]
    split
    · -- the slash is dropped, and with it an empty segment
      rename_i hc
      simp only [Bool.and_eq_true, decide_eq_true_eq] at hc
      obtain ⟨rfl, ht⟩ := hc
      obtain ⟨u, rfl⟩ := List.head?_eq_some_iff.1 ht
      have hempty := (head?_segments_cons '/' u).2 rfl
      rw [hr, List.head?_cons] at hempty
      obtain rfl := Option.some.inj hempty
      rw [segments, if_pos rfl, hr, hr']
      exact ⟨rfl, by simpa [isNamingSegment] using hrest⟩
    · by_cases hc : c = '/'
      · subst hc
        rw [segments, segments, if_pos rfl, if_pos rfl, hr, hr']
        exact ⟨rfl, by simp [List.filter_cons, hrest]⟩
      · rw [segments_cons_of_ne hc hr, segments_cons_of_ne hc hr']
        exact ⟨rfl, hrest⟩

theorem namingSegments_collapseSlashes (p : Text) :
    namingSegments (collapseSlashes p) = namingSegments p := by
  obtain ⟨hhead, htail⟩ := segments_collapseSlashes p
  obtain ⟨s, r, hr⟩ := List.exists_cons_of_ne_nil (segments_ne_nil '/' p)
  obtain ⟨s', r', hr'⟩ := List.exists_cons_of_ne_nil (segments_ne_nil '/' (collapseSlashes p))
  rw [hr, hr'] at hhead htail
  obtain rfl := Option.some.inj hhead
  rw [namingSegments, namingSegments, hr, hr', List.filter_cons, List.filter_cons]
  exact congrArg (fun l => if isNamingSegment s' = true then s' :: l else l) htail

/-- Between the first and the last segment none is empty when slashes have been collapsed. -/
theorem nil_not_mem_inner_collapseSlashes (p : Text) :
    [] ∉ (segments '/' (collapseSlashes p)).tail.dropLast := by
  induction p with
  | nil => simp [collapseSlashes, segments]
  | cons c t ih =>
    rw [collapseSlashes]
    split
    · exact ih
    · rename_i hc
      obtain ⟨s, r, hr⟩ := List.exists_cons_of_ne_nil (segments_ne_nil '/' (collapseSlashes t))
      rw [hr, List.tail_cons] at ih
      by_cases hslash : c = '/'
      · subst hslash
        rw [segments, if_pos rfl, hr, List.tail_cons]
        cases r with
        | nil => simp
        | cons u r =>
          rw [List.dropLast_cons_of_ne_nil (by simp), List.mem_cons, not_or]
          refine ⟨?_, ih⟩
          rintro rfl
          -- an empty segment that is not the last is in front of a slash
          have ht : (collapseSlashes t).head? = some '/' := by
            rcases hcollapsed : collapseSlashes t with _ | ⟨d, v⟩
            · simp [hcollapsed, segments] at hr
            · have hd := (head?_segments_cons d v).1 (by rw [← hcollapsed, hr]; rfl)
              rw [hd, List.head?_cons]
          rw [head?_collapseSlashes] at ht
          simp [ht] at hc
      · rw [segments_cons_of_ne hslash hr, List.tail_cons]
        exact ih

theorem dropEndSlashes_of_not_mem (h : '/' ∉ p) : dropEndSlashes p = p := by
  rw [dropEndSlashes]
  rcases hp : p.reverse with _ | ⟨c, r⟩
  · rw [List.reverse_eq_nil_iff] at hp
    rw [hp]
    rfl
  · have hc : c ≠ '/' := by
      rintro rfl
      exact h (List.mem_reverse.1 (hp ▸ List.mem_cons_self))
    rw [List.dropWhile_cons_of_neg (by simpa using hc), ← hp, List.reverse_reverse]

/-- Slashes at the end of a text behind another are dropped there, and the one in between with them
if nothing else is left. -/
theorem dropEndSlashes_append (p q : Text) :
    dropEndSlashes (p ++ '/' :: q) =
      if dropEndSlashes q = [] then dropEndSlashes p else p ++ '/' :: dropEndSlashes q := by
  have hsplit : (p ++ '/' :: q).reverse = q.reverse ++ '/' :: p.reverse := by simp
  rw [dropEndSlashes, hsplit, List.dropWhile_append]
  by_cases hq : dropEndSlashes q = []
  · have hempty : q.reverse.dropWhile (· = '/') = [] := List.reverse_eq_nil_iff.1 hq
    rw [if_pos hq, hempty, List.isEmpty_nil, if_pos rfl, List.dropWhile_cons_of_pos (by simp)]
    rfl
  · have hne : q.reverse.dropWhile (· = '/') ≠ [] := fun hempty => hq (List.reverse_eq_nil_iff.2 hempty)
    rw [if_neg hq, if_neg (by simpa using hne)]
    simp [dropEndSlashes]

/-- Segments are joined without a slash at the end if the empty one at the end is left out. -/
theorem dropEndSlashes_joinWith (hslash : ∀ s ∈ l, '/' ∉ s) (h : [] ∉ l.dropLast) :
    dropEndSlashes (joinWith ['/'] l) = joinWith ['/'] (l.filter (· ≠ [])) := by
  induction l with
  | nil => rfl
  | cons s l ih =>
    obtain ⟨hs, hl⟩ := List.forall_mem_cons.1 hslash
    cases l with
    | nil =>
      rw [joinWith, dropEndSlashes_of_not_mem hs]
      cases s <;> rfl
    | cons t r =>
      rw [List.dropLast_cons_of_ne_nil (by simp), List.mem_cons, not_or] at h
      have hrest := ih hl h.2
      have hkept : (s :: t :: r).filter (· ≠ []) = s :: (t :: r).filter (· ≠ []) :=
        List.filter_cons_of_pos (by simpa using Ne.symm h.1)
      rw [joinWith, List.append_assoc, List.singleton_append, dropEndSlashes_append, hrest,
        dropEndSlashes_of_not_mem hs, hkept]
      rcases hf : (t :: r).filter (· ≠ []) with _ | ⟨u, v⟩
      · rfl
      · have hu : u ≠ [] := by
          have hmem : u ∈ (t :: r).filter (· ≠ []) := hf ▸ List.mem_cons_self
          simpa using (List.mem_filter.1 hmem).2
        have hne : joinWith ['/'] (u :: v) ≠ [] := by
          intro he
          have hinfix : u <:+: joinWith ['/'] (u :: v) := infix_joinWith_of_mem List.mem_cons_self
          rw [he, List.infix_nil] at hinfix
          exact hu hinfix
        rw [if_neg hne, joinWith, List.append_assoc, List.singleton_append]

/-- If only the last segment may be empty, that is so without some of the others. -/
theorem nil_not_mem_dropLast_filter {keep : Text → Bool} (h : [] ∉ l.dropLast) :
    [] ∉ (l.filter keep).dropLast := by
  induction l with
  | nil => simp
  | cons s l ih =>
    cases l with
    | nil =>
      rw [List.filter_cons]
      split <;> simp
    | cons t r =>
      rw [List.dropLast_cons_of_ne_nil (by simp), List.mem_cons, not_or] at h
      have hrest := ih h.2
      rw [List.filter_cons]
      split
      · intro hm
        rcases hf : (t :: r).filter keep with _ | ⟨u, v⟩
        · simp [hf] at hm
        · rw [hf, List.dropLast_cons_of_ne_nil (by simp), List.mem_cons, ← hf] at hm
          exact hm.elim h.1 hrest
      · exact hrest

/-- **A canonical path is a tidied one**: what the steps come to is the slash at the beginning and the
segments that name something. -/
theorem canonicalPath_eq_tidied (p : Text) : canonicalPath p = tidied (slashed (strip p)) := by
  rw [canonicalPath, tidied]
  generalize slashed (strip p) = q
  have hnaming : ((segments '/' (collapseSlashes q)).filter (· ≠ ['.'])).filter (· ≠ []) =
      namingSegments q := by
    rw [← namingSegments_collapseSlashes, namingSegments, List.filter_filter]
    exact List.filter_congr fun s _ => by simp [isNamingSegment]
  rw [head?_collapseSlashes]
  split
  · rw [hnaming]
    rfl
  · rename_i hq
    have hslash : ∀ s ∈ (segments '/' (collapseSlashes q)).filter (· ≠ ['.']), '/' ∉ s :=
      fun s hs => not_mem_of_mem_segments (List.mem_filter.1 hs).1
    have hinner : [] ∉ (segments '/' (collapseSlashes q)).dropLast := by
      obtain ⟨s, r, hr⟩ := List.exists_cons_of_ne_nil (segments_ne_nil '/' (collapseSlashes q))
      have htail := nil_not_mem_inner_collapseSlashes q
      rw [hr, List.tail_cons] at htail
      rw [hr]
      cases r with
      | nil => simp
      | cons u r =>
        rw [List.dropLast_cons_of_ne_nil (by simp), List.mem_cons, not_or]
        refine ⟨?_, htail⟩
        rintro rfl
        rw [← head?_collapseSlashes] at hq
        rcases hcollapsed : collapseSlashes q with _ | ⟨d, v⟩
        · simp [hcollapsed, segments] at hr
        · rw [hcollapsed, List.head?_cons] at hq
          exact hq (congrArg some ((head?_segments_cons d v).1 (by rw [← hcollapsed, hr]; rfl)))
    rw [dropEndSlashes_joinWith hslash (nil_not_mem_dropLast_filter hinner), hnaming, List.nil_append]

/-- A leading slash does not matter to the segments that name something. -/
theorem namingSegments_cons_slash (p : Text) : namingSegments ('/' :: p) = namingSegments p := by
  rw [namingSegments, segments, if_pos rfl, List.filter_cons_of_neg (by decide), namingSegments]

/-- Nothing is added to a path. -/
theorem tidied_sublist (p : Text) : (tidied p).Sublist p := by
  have hjoined (r : Text) : (joinWith ['/'] (namingSegments r)).Sublist r := by
    have h : (joinWith ['/'] (namingSegments r)).Sublist (joinWith ['/'] (segments '/' r)) :=
      joinWith_sublist List.filter_sublist
    rwa [joinWith_segments] at h
  rw [tidied]
  split
  · rename_i hp
    obtain ⟨r, rfl⟩ := List.head?_eq_some_iff.1 hp
    rw [namingSegments_cons_slash]
    exact (hjoined r).cons_cons '/'
  · exact hjoined p

theorem namingSegments_joinWith (h : ∀ s ∈ l, isNamingSegment s ∧ '/' ∉ s) :
    namingSegments (joinWith ['/'] l) = l := by
  by_cases hl : l = []
  · subst hl
    rfl
  · rw [namingSegments, segments_joinWith hl fun s hs => (h s hs).2]
    exact List.filter_eq_self.2 fun s hs => (h s hs).1

theorem head?_joinWith_ne_slash (h : ∀ s ∈ l, isNamingSegment s ∧ '/' ∉ s) :
    (joinWith ['/'] l).head? ≠ some '/' := by
  cases l with
  | nil => simp [joinWith]
  | cons s r =>
    obtain ⟨hs, hslash⟩ := h s List.mem_cons_self
    obtain ⟨c, s, rfl⟩ := List.exists_cons_of_ne_nil (show s ≠ [] by rintro rfl; cases hs)
    have hc : c ≠ '/' := fun hc => hslash (hc ▸ List.mem_cons_self)
    cases r <;> simpa [joinWith] using hc

/-- A path is tidied once and for all. -/
theorem tidied_tidied (p : Text) : tidied (tidied p) = tidied p := by
  have hnaming : ∀ s ∈ namingSegments p, isNamingSegment s ∧ '/' ∉ s := fun s hs =>
    ⟨(List.mem_filter.1 hs).2, not_mem_of_mem_segments (List.mem_filter.1 hs).1⟩
  have hsegments := namingSegments_joinWith hnaming
  by_cases hp : p.head? = some '/'
  · have ht : tidied p = '/' :: joinWith ['/'] (namingSegments p) := by
      rw [tidied, if_pos hp, List.singleton_append]
    rw [ht, tidied, if_pos List.head?_cons, namingSegments_cons_slash, hsegments,
      List.singleton_append]
  · have ht : tidied p = joinWith ['/'] (namingSegments p) := by
      rw [tidied, if_neg hp, List.nil_append]
    rw [ht, tidied, if_neg (head?_joinWith_ne_slash hnaming), hsegments, List.nil_append]

/-! ## Canonical paths -/

/-- A path has no backslash any more. -/
theorem slashed_canonicalPath (p : Text) : slashed (canonicalPath p) = canonicalPath p := by
  have hnone : ∀ c ∈ canonicalPath p, c ≠ '\\' := by
    intro c hc
    rw [canonicalPath_eq_tidied] at hc
    obtain ⟨d, -, rfl⟩ := List.mem_map.1 ((tidied_sublist _).subset hc)
    split
    · decide
    · assumption
  rw [slashed, List.map_congr_left fun c hc => if_neg (hnone c hc), List.map_id']

/-- There are no blanks around a path that is in canonical form. -/
theorem strip_of_canonicalPath (h : canonicalPath q = q) : strip q = q := by
  have hshort : q.length ≤ (strip q).length := by
    calc q.length = (tidied (slashed (strip q))).length := by rw [← canonicalPath_eq_tidied, h]
      _ ≤ (slashed (strip q)).length := (tidied_sublist _).length_le
      _ = (strip q).length := List.length_map _
  exact (strip_isInfix q).sublist.eq_of_length_le hshort

/-- **The canonical form of a path is in canonical form exactly if there are no blanks around it.** -/
theorem canonicalPath_canonicalPath_iff (p : Text) :
    canonicalPath (canonicalPath p) = canonicalPath p ↔
      strip (canonicalPath p) = canonicalPath p := by
  refine ⟨strip_of_canonicalPath, fun h => ?_⟩
  rw [canonicalPath_eq_tidied (canonicalPath p), h, slashed_canonicalPath, canonicalPath_eq_tidied,
    tidied_tidied]

/-- If no segment of a path has blanks around it, its canonical form has none. -/
theorem strip_canonicalPath_of_segments
    (h : ∀ s ∈ segments '/' (slashed (strip p)), strip s = s) :
    strip (canonicalPath p) = canonicalPath p := by
  have hnaming : ∀ s ∈ namingSegments (slashed (strip p)), strip s = s ∧ s ≠ [] := fun s hs =>
    ⟨h s (List.mem_filter.1 hs).1, by rintro rfl; exact nomatch (List.mem_filter.1 hs).2⟩
  have hjoined : strip (joinWith ['/'] (namingSegments (slashed (strip p)))) = _ :=
    strip_joinWith hnaming
  rw [canonicalPath_eq_tidied, tidied]
  split
  · by_cases h0 : joinWith ['/'] (namingSegments (slashed (strip p))) = []
    · rw [h0]
      decide
    · have hslash : strip ['/'] ≠ [] := by decide
      have hrooted := strip_append_append hslash (hjoined.symm ▸ h0) []
      rw [List.append_nil] at hrooted
      rw [hrooted, stripRight_of_strip hjoined]
      rfl
  · exact hjoined

end ReplyLedger
