import ReplyLedger.Proofs.Text.Replacing

/-!
# Counting occurrences

A part of a text holds a mark no more often than the whole text (`occurrences_le_of_isInfix`). That is
not plain from the counting, which goes from left to right and skips what overlaps: in the whole text
it may meet other occurrences than in the part. But it meets each of its occurrences no later than any
other that is left.
-/

namespace ReplyLedger.Text

variable {mark t u before after x : Text}

/-- The mark does not occur before its first occurrence. -/
theorem not_infix_of_cut (hm : mark ≠ []) (h : cut mark t = some (before, after)) :
    ¬ mark <:+: before := by
  rintro ⟨b, a, rfl⟩
  have hle := length_le_of_cut h (b := b) (a := a ++ mark ++ after) (by
    simp [eq_append_of_cut h])
  have hpos := List.length_pos_iff.2 hm
  simp only [List.length_append] at hle
  omega

theorem occurrences_of_cut_none (h : cut mark t = none) : occurrences mark t = 0 := by
  rw [occurrences, pieces_of_cut_none h, List.length_singleton]

theorem occurrences_of_cut (hm : mark ≠ []) (h : cut mark t = some (before, after)) :
    occurrences mark t = occurrences mark after + 1 := by
  have hpos := List.length_pos_iff.2 (pieces_ne_nil mark after)
  rw [occurrences, occurrences, pieces_of_cut hm h, List.length_cons]
  omega

/-- What stands behind an occurrence stands behind the first one. -/
theorem suffix_of_cut (h : cut mark t = some (before, after)) (ht : t = u ++ mark ++ x) :
    x <:+ after := by
  have hafter : after <:+ t := ⟨before ++ mark, (eq_append_of_cut h).symm⟩
  have hlen := congrArg List.length ((eq_append_of_cut h).symm.trans ht)
  have hle := length_le_of_cut h ht
  simp only [List.length_append] at hlen
  exact List.suffix_of_suffix_length_le ⟨u ++ mark, ht.symm⟩ hafter (by omega)

theorem occurrences_append_left (hm : mark ≠ []) (x t : Text) :
    occurrences mark t ≤ occurrences mark (x ++ t) := by
  rcases h : cut mark t with _ | ⟨before, after⟩
  · rw [occurrences_of_cut_none h]
    exact Nat.zero_le _
  · have hwhole : x ++ t = x ++ before ++ mark ++ after := by simp [eq_append_of_cut h]
    obtain ⟨⟨before', after'⟩, h'⟩ : ∃ found, cut mark (x ++ t) = some found := by
      refine Option.ne_none_iff_exists'.1 fun hn => cut_eq_none_iff.1 hn ?_
      exact ⟨x ++ before, after, hwhole.symm⟩
    -- the whole text is cut no later, and what is left of the part is behind that cut
    obtain ⟨y, rfl⟩ := suffix_of_cut h' hwhole
    have hshorter := length_lt_of_cut hm h
    rw [occurrences_of_cut hm h, occurrences_of_cut hm h']
    exact Nat.succ_le_succ (occurrences_append_left hm y after)
termination_by t.length

theorem occurrences_append_right (hm : mark ≠ []) (t x : Text) :
    occurrences mark t ≤ occurrences mark (t ++ x) := by
  rcases h : cut mark t with _ | ⟨before, after⟩
  · rw [occurrences_of_cut_none h]
    exact Nat.zero_le _
  · have hshorter := length_lt_of_cut hm h
    rw [occurrences_of_cut hm h, occurrences_of_cut hm (cut_append_right h x)]
    exact Nat.succ_le_succ (occurrences_append_right hm after x)
termination_by t.length

/-- **A part of a text holds a mark no more often than the whole.** -/
theorem occurrences_le_of_isInfix (hm : mark ≠ []) (h : t <:+: u) :
    occurrences mark t ≤ occurrences mark u := by
  obtain ⟨x, y, rfl⟩ := h
  calc occurrences mark t
      ≤ occurrences mark (x ++ t) := occurrences_append_left hm x t
    _ ≤ occurrences mark (x ++ t ++ y) := occurrences_append_right hm (x ++ t) y

end ReplyLedger.Text
