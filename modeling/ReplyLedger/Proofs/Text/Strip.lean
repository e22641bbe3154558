import ReplyLedger.Operation.CanonicalPath

/-!
# Texts without the blanks around them

Blanks in front of a text and behind it do not matter to `strip` (`strip_append_left`,
`strip_append_right`), nor to the canonical form of a path, which strips first. Blanks inside a text
stay (`strip_append_append`).
-/

namespace ReplyLedger

namespace Text

variable {t u v x : Text}

/-- Whether a text holds nothing but blanks. -/
def AllBlank (t : Text) : Prop := ∀ c ∈ t, isBlank c

instance (t : Text) : Decidable (AllBlank t) :=
  decidable_of_iff (t.all isBlank = true) List.all_eq_true

theorem stripLeft_append_left (hx : AllBlank x) (t : Text) : stripLeft (x ++ t) = stripLeft t := by
  rw [stripLeft, List.dropWhile_append_of_pos hx, stripLeft]

theorem stripRight_append_right (t : Text) (hx : AllBlank x) :
    stripRight (t ++ x) = stripRight t := by
  have hr : ∀ c ∈ x.reverse, isBlank c := fun c hc => hx c (List.mem_reverse.1 hc)
  rw [stripRight, List.reverse_append, List.dropWhile_append_of_pos hr, stripRight]

/-- What is not blank keeps what stands behind it. -/
theorem stripLeft_append_of_ne_nil (h : stripLeft t ≠ []) (x : Text) :
    stripLeft (t ++ x) = stripLeft t ++ x := by
  rw [stripLeft] at h ⊢
  rw [List.dropWhile_append, if_neg (by simpa using h), stripLeft]

/-- What is not blank keeps what stands in front of it. -/
theorem stripRight_append_of_ne_nil (h : stripRight t ≠ []) (x : Text) :
    stripRight (x ++ t) = x ++ stripRight t := by
  rw [stripRight, List.reverse_append, List.dropWhile_append, if_neg, List.reverse_append,
    List.reverse_reverse, stripRight]
  intro he
  rw [List.isEmpty_iff] at he
  exact h (by rw [stripRight, he, List.reverse_nil])

theorem allBlank_of_stripLeft_eq_nil (h : stripLeft t = []) : AllBlank t := by
  have ht := List.takeWhile_append_dropWhile (p := isBlank) (l := t)
  rw [stripLeft] at h
  rw [h, List.append_nil] at ht
  intro c hc
  rw [← ht] at hc
  exact List.all_eq_true.1 List.all_takeWhile c hc

theorem strip_append_left (hx : AllBlank x) (t : Text) : strip (x ++ t) = strip t := by
  rw [strip, stripLeft_append_left hx, strip]

theorem strip_append_right (t : Text) (hx : AllBlank x) : strip (t ++ x) = strip t := by
  by_cases h : stripLeft t = []
  · have ht := allBlank_of_stripLeft_eq_nil h
    have hx' : stripLeft x = [] := by
      have := stripLeft_append_left hx []
      simpa [stripLeft] using this
    rw [strip, stripLeft_append_left ht, hx', strip, h]
  · rw [strip, stripLeft_append_of_ne_nil h, stripRight_append_right _ hx, strip]

/-- A text without blanks stays. -/
theorem strip_of_no_blank (h : ∀ c ∈ t, isBlank c = false) : strip t = t := by
  have hleft : stripLeft t = t := by
    cases t with
    | nil => rfl
    | cons c t => rw [stripLeft, List.dropWhile_cons_of_neg (by simp [h c List.mem_cons_self])]
  rw [strip, hleft]
  rcases List.eq_nil_or_concat t with rfl | ⟨t, c, rfl⟩
  · rfl
  · have hc : isBlank c = false := h c (by simp)
    rw [stripRight, List.concat_eq_append, List.reverse_concat,
      List.dropWhile_cons_of_neg (by simp [hc]), ← List.reverse_concat, List.reverse_reverse]

/-- A text is what is left of it and the blanks around that. -/
theorem exists_eq_append_stripRight (t : Text) : ∃ x, AllBlank x ∧ t = stripRight t ++ x := by
  refine ⟨(t.reverse.takeWhile isBlank).reverse, fun c hc => ?_, ?_⟩
  · exact List.all_eq_true.1 List.all_takeWhile c (List.mem_reverse.1 hc)
  · rw [stripRight, ← List.reverse_append, List.takeWhile_append_dropWhile, List.reverse_reverse]

theorem exists_eq_append_stripLeft (t : Text) : ∃ x, AllBlank x ∧ t = x ++ stripLeft t :=
  ⟨t.takeWhile isBlank, fun c hc => List.all_eq_true.1 List.all_takeWhile c hc,
    List.takeWhile_append_dropWhile.symm⟩

theorem strip_stripRight (t : Text) : strip (stripRight t) = strip t := by
  obtain ⟨x, hx, ht⟩ := exists_eq_append_stripRight t
  have hs := strip_append_right (stripRight t) hx
  rw [← ht] at hs
  exact hs.symm

theorem strip_stripLeft (t : Text) : strip (stripLeft t) = strip t := by
  obtain ⟨x, hx, ht⟩ := exists_eq_append_stripLeft t
  have hs := strip_append_left hx (stripLeft t)
  rw [← ht] at hs
  exact hs.symm

/-- What is left of a text is a part of it. -/
theorem strip_isInfix (t : Text) : strip t <:+: t := by
  obtain ⟨x, -, hx⟩ := exists_eq_append_stripRight (stripLeft t)
  have hright : strip t <+: stripLeft t := ⟨x, hx.symm⟩
  have hleft : stripLeft t <:+ t := List.dropWhile_suffix _
  exact hright.isInfix.trans hleft.isInfix

/-- Nothing more is taken away a second time. -/
theorem strip_strip (t : Text) : strip (strip t) = strip t := by
  have h : strip (stripRight (stripLeft t)) = strip t := by rw [strip_stripRight, strip_stripLeft]
  exact h

theorem stripLeft_ne_nil (h : strip t ≠ []) : stripLeft t ≠ [] := by
  intro h'
  rw [strip, h'] at h
  exact h rfl

theorem stripRight_ne_nil (h : strip t ≠ []) : stripRight t ≠ [] := by
  intro h'
  rw [← strip_stripRight, h'] at h
  exact h rfl

/-- Blanks inside a text stay. -/
theorem strip_append_append (ht : strip t ≠ []) (hu : strip u ≠ []) (x : Text) :
    strip (t ++ x ++ u) = stripLeft t ++ x ++ stripRight u := by
  rw [strip, List.append_assoc, stripLeft_append_of_ne_nil (stripLeft_ne_nil ht),
    ← List.append_assoc, stripRight_append_of_ne_nil (stripRight_ne_nil hu)]

end Text

/-! ## Canonical paths -/

open Text

theorem canonicalPath_congr {p q : Text} (h : strip p = strip q) :
    canonicalPath p = canonicalPath q := by
  rw [canonicalPath, h, canonicalPath]

/-- A canonical path that names something is not blank. -/
theorem strip_ne_nil_of_canonicalPath {p : Text} (hp : canonicalPath p = p) (h0 : p ≠ []) :
    strip p ≠ [] := by
  intro h
  have hc : canonicalPath p = canonicalPath [] := canonicalPath_congr h
  rw [hp] at hc
  exact h0 hc

end ReplyLedger
