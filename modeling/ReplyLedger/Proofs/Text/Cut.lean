import ReplyLedger.Text.Basic

/-!
# The first occurrence of a mark

`cut` splits a text at the first occurrence of a mark: no occurrence begins earlier
(`cut_eq_some_iff`), and there is no cut where the mark does not occur (`cut_eq_none_iff`). Text
behind the first occurrence does not matter to a cut (`cut_append_right`).
-/

namespace ReplyLedger.Text

variable {mark t before after x : Text}

theorem startsWith_iff : startsWith mark t ↔ mark <+: t := List.isPrefixOf_iff_prefix

theorem startsWith_append (mark t : Text) : startsWith mark (mark ++ t) :=
  startsWith_iff.2 (List.prefix_append mark t)

/-- An occurrence in `c :: t` is at its beginning or in `t`. -/
theorem infix_cons_iff {c : Char} : mark <:+: c :: t ↔ mark <+: c :: t ∨ mark <:+: t :=
  List.infix_cons_iff

/-- A mark does not begin in a text without its first character. -/
theorem infix_of_infix_append {c : Char} {o : Text} (ho : c ∉ o) (h : c :: mark <:+: o ++ t) :
    c :: mark <:+: t := by
  induction o with
  | nil => exact h
  | cons d o ih =>
    obtain ⟨hd, ho⟩ := List.ne_and_not_mem_of_not_mem_cons ho
    rcases infix_cons_iff.1 h with hp | hi
    · exact absurd (List.cons_prefix_cons.1 hp).1 hd
    · exact ih ho hi

/-- A mark does not reach over a character that it does not hold. -/
theorem prefix_of_prefix_append_cons {c : Char} {u v : Text} (hc : c ∉ mark)
    (h : mark <+: u ++ c :: v) : mark <+: u := by
  rcases List.prefix_or_prefix_of_prefix h (List.prefix_append u _) with hu | ⟨w, rfl⟩
  · exact hu
  · rw [List.prefix_append_right_inj] at h
    cases w with
    | nil => simp
    | cons d w =>
      obtain ⟨rfl, -⟩ := List.cons_prefix_cons.1 h
      exact absurd (by simp) hc

theorem infix_append_cons {c : Char} {u v : Text} (hc : c ∉ mark) (h : mark <:+: u ++ c :: v) :
    mark <:+: u ∨ mark <:+: v := by
  induction u with
  | nil =>
    rcases infix_cons_iff.1 h with hp | hi
    · have hnil : mark <+: [] := prefix_of_prefix_append_cons (u := []) hc hp
      exact .inl hnil.isInfix
    · exact .inr hi
  | cons d u ih =>
    rcases infix_cons_iff.1 h with hp | hi
    · exact .inl (prefix_of_prefix_append_cons (u := d :: u) hc hp).isInfix
    · exact (ih hi).imp (fun hu => hu.trans (List.suffix_cons d u).isInfix) id

/-- A text is not cut where the mark does not occur. -/
theorem cut_eq_none_iff : cut mark t = none ↔ ¬ mark <:+: t := by
  induction t with
  | nil => simp [cut]
  | cons c t ih =>
    rw [cut, infix_cons_iff, ← startsWith_iff]
    split
    · rename_i hs
      simp [hs]
    · rename_i hs
      simp [hs, ih]

theorem has_iff : has mark t ↔ mark <:+: t := by
  rw [has, Option.isSome_iff_ne_none, ne_eq, cut_eq_none_iff, Decidable.not_not]

/-- No occurrence of the mark begins before the one that the text is cut at. -/
theorem length_le_of_cut (h : cut mark t = some (before, after)) {b a : Text}
    (ht : t = b ++ mark ++ a) : before.length ≤ b.length := by
  induction t generalizing before b with
  | nil =>
    have hb := eq_append_of_cut h
    simp at hb
    simp [hb]
  | cons c t ih =>
    rw [cut] at h
    split at h
    · obtain ⟨rfl, -⟩ := Prod.mk.inj (Option.some.inj h)
      simp
    · rename_i hs
      obtain ⟨⟨before', after'⟩, hc, he⟩ := Option.map_eq_some_iff.1 h
      obtain ⟨rfl, rfl⟩ := Prod.mk.inj he
      cases b with
      | nil =>
        refine absurd (startsWith_iff.2 ⟨a, ?_⟩) hs
        simpa using ht.symm
      | cons d b =>
        have ht' : t = b ++ mark ++ a := by simpa using (List.cons.inj ht).2
        simpa using ih hc ht'

/-- A text is cut at the first occurrence of the mark. -/
theorem cut_eq_some_iff : cut mark t = some (before, after) ↔
    t = before ++ mark ++ after ∧ ∀ b a, t = b ++ mark ++ a → before.length ≤ b.length := by
  constructor
  · exact fun h => ⟨eq_append_of_cut h, fun b a ht => length_le_of_cut h ht⟩
  · rintro ⟨rfl, hfirst⟩
    obtain ⟨⟨b, a⟩, hc⟩ : ∃ p, cut mark (before ++ mark ++ after) = some p := by
      refine Option.ne_none_iff_exists'.1 fun hn => ?_
      exact cut_eq_none_iff.1 hn ⟨before, after, rfl⟩
    have hle := hfirst b a (eq_append_of_cut hc)
    have hge := length_le_of_cut hc rfl
    have heq := eq_append_of_cut hc
    rw [List.append_assoc, List.append_assoc] at heq
    obtain ⟨rfl, htail⟩ := List.append_inj heq (by omega)
    obtain ⟨-, rfl⟩ := List.append_inj htail rfl
    exact hc

/-- What stands behind the first occurrence does not matter to a cut. -/
theorem cut_append_right (h : cut mark t = some (before, after)) (x : Text) :
    cut mark (t ++ x) = some (before, after ++ x) := by
  refine cut_eq_some_iff.2 ⟨by simp [eq_append_of_cut h], fun b a hb => ?_⟩
  refine Nat.le_of_not_lt fun hlt => ?_
  have hlen := congrArg List.length (eq_append_of_cut h)
  simp only [List.length_append] at hlen
  -- an earlier occurrence would lie in `t` as a whole
  have hpre : b ++ mark <+: t := by
    refine List.prefix_of_prefix_length_le ⟨a, hb.symm⟩ (List.prefix_append t x) ?_
    rw [List.length_append]
    omega
  obtain ⟨a', rfl⟩ := hpre
  have := length_le_of_cut h rfl
  omega

/-- A text is cut at a mark that does not begin any earlier, in what comes before it and the
beginning of the mark itself. -/
theorem cut_of_not_infix (h : ¬ mark <:+: before ++ mark.dropLast) (after : Text) :
    cut mark (before ++ mark ++ after) = some (before, after) := by
  refine cut_eq_some_iff.2 ⟨rfl, fun b a hb => Nat.le_of_not_lt fun hlt => h ?_⟩
  have hdrop : before ++ mark.dropLast <+: before ++ mark ++ after := by
    rw [List.append_assoc]
    exact List.prefix_append_right_inj _ |>.2 ((List.dropLast_prefix mark).trans ⟨after, rfl⟩)
  have hpre : b ++ mark <+: before ++ mark.dropLast := by
    refine List.prefix_of_prefix_length_le ⟨a, hb.symm⟩ hdrop ?_
    simp only [List.length_append, List.length_dropLast]
    omega
  exact (List.suffix_append b mark).isInfix.trans hpre.isInfix

end ReplyLedger.Text
