import ReplyLedger.Proofs.Text.Cut

/-!
# The segments of a text

A text cut at every separator, and segments joined again. No segment holds the separator
(`not_mem_of_mem_segments`), a separator between two texts keeps their segments apart
(`segments_append`), and segments that do not hold the separator are found again when they are
joined by it (`segments_joinWith`). A mark without the separator in joined texts is in one of them
(`exists_infix_of_joinWith`).
-/

namespace ReplyLedger.Text

variable {sep : Char}

theorem segments_ne_nil (sep : Char) (t : Text) : segments sep t ≠ [] := by
  cases t with
  | nil => simp [segments]
  | cons c t =>
    rw [segments]
    split
    · simp
    · split <;> simp

theorem segments_cons_of_ne {c : Char} (h : c ≠ sep) {t s : Text} {r : List Text}
    (ht : segments sep t = s :: r) : segments sep (c :: t) = (c :: s) :: r := by
  rw [segments, if_neg h, ht]

/-- No segment holds the separator. -/
theorem not_mem_of_mem_segments {t s : Text} (h : s ∈ segments sep t) : sep ∉ s := by
  induction t generalizing s with
  | nil =>
    obtain rfl : s = [] := by simpa [segments] using h
    simp
  | cons c t ih =>
    by_cases hc : c = sep
    · rw [segments, if_pos hc, List.mem_cons] at h
      rcases h with rfl | h
      · simp
      · exact ih h
    · obtain ⟨u, r, hr⟩ := List.exists_cons_of_ne_nil (segments_ne_nil sep t)
      rw [segments_cons_of_ne hc hr, List.mem_cons] at h
      rw [hr] at ih
      rcases h with rfl | h
      · intro hs
        rcases List.mem_cons.1 hs with rfl | hs
        · exact hc rfl
        · exact ih (by simp) hs
      · exact ih (by simp [h])

/-- The characters of a segment are characters of the text. -/
theorem mem_of_mem_segments {t s : Text} (h : s ∈ segments sep t) {c : Char} (hc : c ∈ s) :
    c ∈ t := by
  induction t generalizing s with
  | nil =>
    obtain rfl : s = [] := by simpa [segments] using h
    simp at hc
  | cons d t ih =>
    by_cases hd : d = sep
    · rw [segments, if_pos hd, List.mem_cons] at h
      rcases h with rfl | h
      · simp at hc
      · exact List.mem_cons_of_mem d (ih h hc)
    · obtain ⟨u, r, hr⟩ := List.exists_cons_of_ne_nil (segments_ne_nil sep t)
      rw [segments_cons_of_ne hd hr, List.mem_cons] at h
      rw [hr] at ih
      rcases h with rfl | h
      · rcases List.mem_cons.1 hc with rfl | hc
        · exact List.mem_cons_self
        · exact List.mem_cons_of_mem d (ih List.mem_cons_self hc)
      · exact List.mem_cons_of_mem d (ih (List.mem_cons_of_mem u h) hc)

/-- A separator between two texts keeps their segments apart. -/
theorem segments_append (t u : Text) :
    segments sep (t ++ sep :: u) = segments sep t ++ segments sep u := by
  induction t with
  | nil => simp [segments]
  | cons c t ih =>
    by_cases hc : c = sep
    · rw [List.cons_append, segments, if_pos hc, ih, segments, if_pos hc, List.cons_append]
    · obtain ⟨v, r, hr⟩ := List.exists_cons_of_ne_nil (segments_ne_nil sep t)
      rw [List.cons_append, segments_cons_of_ne hc (by rw [ih, hr, List.cons_append]),
        segments_cons_of_ne hc hr, List.cons_append]

/-- A text without the separator is its only segment. -/
theorem segments_of_not_mem {t : Text} (h : sep ∉ t) : segments sep t = [t] := by
  induction t with
  | nil => rfl
  | cons c t ih =>
    obtain ⟨hc, ht⟩ := List.ne_and_not_mem_of_not_mem_cons h
    exact segments_cons_of_ne (Ne.symm hc) (ih ht)

/-- Segments that do not hold the separator are found again when they are joined by it. -/
theorem segments_joinWith {l : List Text} (hl : l ≠ []) (h : ∀ s ∈ l, sep ∉ s) :
    segments sep (joinWith [sep] l) = l := by
  induction l with
  | nil => exact absurd rfl hl
  | cons s l ih =>
    cases l with
    | nil => exact segments_of_not_mem (h s (by simp))
    | cons t r =>
      have hr : ∀ u ∈ t :: r, sep ∉ u := fun u hu => h u (List.mem_cons_of_mem s hu)
      rw [joinWith, List.append_assoc, List.singleton_append, segments_append,
        segments_of_not_mem (h s (by simp)), ih (by simp) hr, List.singleton_append]

theorem joinWith_append {sep : Text} {l r : List Text} (hl : l ≠ []) (hr : r ≠ []) :
    joinWith sep (l ++ r) = joinWith sep l ++ sep ++ joinWith sep r := by
  induction l with
  | nil => exact absurd rfl hl
  | cons s l ih =>
    cases l with
    | nil =>
      obtain ⟨u, r, rfl⟩ := List.exists_cons_of_ne_nil hr
      simp [joinWith]
    | cons t l =>
      rw [List.cons_append, List.cons_append, joinWith, ← List.cons_append, ih (by simp), joinWith]
      simp

/-- The characters of a text that is joined with others are characters of the whole. -/
theorem mem_joinWith_of_mem {sep s : Text} {l : List Text} {c : Char} (hs : s ∈ l) (hc : c ∈ s) :
    c ∈ joinWith sep l := by
  induction l with
  | nil => simp at hs
  | cons t l ih =>
    cases l with
    | nil =>
      rw [List.mem_singleton.1 hs] at hc
      exact hc
    | cons u r =>
      rw [joinWith]
      rcases List.mem_cons.1 hs with rfl | hs
      · exact List.mem_append_left _ (List.mem_append_left _ hc)
      · exact List.mem_append_right _ (ih hs)

/-- The characters of joined texts are those of the texts and of the separator. -/
theorem mem_joinWith {sep : Text} {l : List Text} {c : Char} (h : c ∈ joinWith sep l) :
    c ∈ sep ∨ ∃ s ∈ l, c ∈ s := by
  induction l with
  | nil => simp [joinWith] at h
  | cons s l ih =>
    cases l with
    | nil => exact .inr ⟨s, List.mem_cons_self, h⟩
    | cons t r =>
      rw [joinWith, List.mem_append, List.mem_append] at h
      rcases h with (h | h) | h
      · exact .inr ⟨s, List.mem_cons_self, h⟩
      · exact .inl h
      · rcases ih h with h | ⟨u, hu, h⟩
        · exact .inl h
        · exact .inr ⟨u, List.mem_cons_of_mem s hu, h⟩

/-- The segments, joined by the separator, are the text. -/
theorem joinWith_segments (sep : Char) (t : Text) : joinWith [sep] (segments sep t) = t := by
  induction t with
  | nil => rfl
  | cons c t ih =>
    obtain ⟨s, r, hr⟩ := List.exists_cons_of_ne_nil (segments_ne_nil sep t)
    rw [hr] at ih
    by_cases hc : c = sep
    · rw [segments, if_pos hc, hr, joinWith, ih, hc]
      rfl
    · rw [segments_cons_of_ne hc hr, ← ih]
      cases r <;> rfl

/-- A text that is joined with others is a part of the whole. -/
theorem infix_joinWith_of_mem {sep s : Text} {l : List Text} (h : s ∈ l) :
    s <:+: joinWith sep l := by
  obtain ⟨l₁, l₂, rfl⟩ := List.append_of_mem h
  have hlast : s <+: joinWith sep (s :: l₂) := by
    cases l₂ with
    | nil => exact List.prefix_refl s
    | cons t r => exact ⟨sep ++ joinWith sep (t :: r), by rw [joinWith, List.append_assoc]⟩
  by_cases h₁ : l₁ = []
  · rw [h₁]
    exact hlast.isInfix
  · rw [joinWith_append h₁ (List.cons_ne_nil s l₂)]
    exact hlast.isInfix.trans (List.suffix_append _ _).isInfix

/-- A segment is a part of the text. -/
theorem infix_of_mem_segments {t s : Text} (h : s ∈ segments sep t) : s <:+: t := by
  have hs : s <:+: joinWith [sep] (segments sep t) := infix_joinWith_of_mem h
  rwa [joinWith_segments] at hs

/-- A mark without the separator is not put together by joining texts. -/
theorem exists_infix_of_joinWith {mark : Text} (hm : mark ≠ []) (hsep : sep ∉ mark) {l : List Text}
    (h : mark <:+: joinWith [sep] l) : ∃ s ∈ l, mark <:+: s := by
  induction l with
  | nil => exact absurd (List.infix_nil.1 h) hm
  | cons s l ih =>
    cases l with
    | nil => exact ⟨s, List.mem_cons_self, h⟩
    | cons t r =>
      rw [joinWith, List.append_assoc, List.singleton_append] at h
      rcases infix_append_cons hsep h with h | h
      · exact ⟨s, List.mem_cons_self, h⟩
      · obtain ⟨u, hu, h⟩ := ih h
        exact ⟨u, List.mem_cons_of_mem s hu, h⟩

end ReplyLedger.Text
