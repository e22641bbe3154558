import ReplyLedger.Proofs.Text.Cut

/-!
# Replacing every occurrence

`Rewritten mark new t u` says that `u` is `t` with every occurrence of `mark` replaced by `new`: the
first one is replaced, and what follows it is rewritten in turn, so occurrences are taken from left
to right and do not overlap. `replaceAll` computes it (`rewritten_iff`), and finds something to do
if and only if the mark occurs (`occurrences_eq_zero_iff`).
-/

namespace ReplyLedger.Text

variable {mark new t u : Text}

/-- `u` is `t` with every occurrence of `mark`, taken left to right without overlap, written as
`new`. -/
inductive Rewritten (mark new : Text) : Text → Text → Prop
  /-- The mark does not occur. -/
  | absent {t : Text} (h : ¬ mark <:+: t) : Rewritten mark new t t
  /-- The occurrence after `before` is the first. -/
  | first {before after rest : Text}
    (h : ∀ b a, before ++ mark ++ after = b ++ mark ++ a → before.length ≤ b.length)
    (hrest : Rewritten mark new after rest) :
    Rewritten mark new (before ++ mark ++ after) (before ++ new ++ rest)

theorem pieces_of_cut_none (h : cut mark t = none) : pieces mark t = [t] := by
  rw [pieces]
  split
  · rfl
  · split
    · rfl
    · rename_i hc
      simp [h] at hc

theorem pieces_of_cut {before after : Text} (hm : mark ≠ [])
    (h : cut mark t = some (before, after)) : pieces mark t = before :: pieces mark after := by
  rw [pieces, dif_neg hm]
  split
  · rename_i hc
    simp [h] at hc
  · rename_i hc
    rw [h] at hc
    obtain ⟨rfl, rfl⟩ := Prod.mk.inj (Option.some.inj hc)
    rfl

theorem replaceAll_of_cut_none (h : cut mark t = none) : replaceAll mark new t = t := by
  rw [replaceAll, pieces_of_cut_none h, joinWith]

theorem replaceAll_of_cut {before after : Text} (hm : mark ≠ [])
    (h : cut mark t = some (before, after)) :
    replaceAll mark new t = before ++ new ++ replaceAll mark new after := by
  obtain ⟨p, r, hp⟩ := List.exists_cons_of_ne_nil (pieces_ne_nil mark after)
  rw [replaceAll, replaceAll, pieces_of_cut hm h, hp, joinWith]

theorem rewritten_replaceAll (hm : mark ≠ []) (t : Text) :
    Rewritten mark new t (replaceAll mark new t) := by
  rcases hc : cut mark t with _ | ⟨before, after⟩
  · rw [replaceAll_of_cut_none hc]
    exact .absent (cut_eq_none_iff.1 hc)
  · have hshorter := length_lt_of_cut hm hc
    rw [replaceAll_of_cut hm hc]
    obtain ⟨rfl, hfirst⟩ := cut_eq_some_iff.1 hc
    exact .first hfirst (rewritten_replaceAll hm after)
termination_by t.length

/-- **Replacing rewrites every occurrence**, and there is only one way to do so. -/
theorem rewritten_iff (hm : mark ≠ []) : Rewritten mark new t u ↔ u = replaceAll mark new t := by
  constructor
  · intro h
    induction h with
    | absent h => exact (replaceAll_of_cut_none (cut_eq_none_iff.2 h)).symm
    | first h _ ih => rw [replaceAll_of_cut hm (cut_eq_some_iff.2 ⟨rfl, h⟩), ih]
  · rintro rfl
    exact rewritten_replaceAll hm t

/-- The empty mark is never counted, and any other is if it occurs. -/
theorem occurrences_eq_zero_iff : occurrences mark t = 0 ↔ mark = [] ∨ ¬ mark <:+: t := by
  by_cases hm : mark = []
  · simp [occurrences, pieces, hm]
  · rcases hc : cut mark t with _ | ⟨before, after⟩
    · simp [occurrences, pieces_of_cut_none hc, cut_eq_none_iff.1 hc]
    · have hne := List.length_pos_iff.2 (pieces_ne_nil mark after)
      have hinfix : mark <:+: t := by
        refine Decidable.of_not_not fun hn => ?_
        simp [cut_eq_none_iff.2 hn] at hc
      rw [occurrences, pieces_of_cut hm hc, List.length_cons, Nat.add_sub_cancel]
      simp only [hm, hinfix, not_true, or_self, iff_false]
      omega

end ReplyLedger.Text
