import ReplyLedger.Proofs.Text.Cut
import ReplyLedger.Reply.Header

/-!
# Where headers stand

A header is proper (`Header.IsProper`) if it stands on one line and ends at the first closing bracket
after its opening. These are the headers that are read: a text begins with one exactly if
`Header.ofText?` reads it (`Header.ofText?_eq_some_iff`), and `findHeader` finds the one that begins
first (`findHeader_eq_some_iff`). A header that has been found is not lost when text is added behind
it (`findHeader_append`).
-/

namespace ReplyLedger.Reply

open Text

/-- Whether a header stands on one line and ends at the first closing bracket after its opening. -/
structure Header.IsProper (h : Header) : Prop where
  oneLine : '\n' ∉ h.inner
  ends : ¬ closing <:+: h.inner ++ ['>', '>']

namespace Marker

/-- A text begins with the opening of one marker at most. -/
theorem ofText?_opening (m : Marker) (t : Text) : ofText? (m.opening ++ t) = some m := by
  cases m <;> simp [ofText?, opening, word, startsWith]

theorem not_mem_opening (m : Marker) : '>' ∉ m.opening ∧ '\n' ∉ m.opening := by
  cases m <;> decide

end Marker

namespace Header

variable {h : Header} {t rest : Text}

/-- The inner text before the first closing bracket of a line makes a proper header. -/
theorem isProper_of_cut {m : Marker} {line inner after : Text} (hl : '\n' ∉ line)
    (hc : cut closing line = some (inner, after)) : (⟨m, inner⟩ : Header).IsProper := by
  have hline := eq_append_of_cut hc
  constructor
  · intro hn
    exact hl (by simp [hline, show '\n' ∈ inner from hn])
  · rintro ⟨b, a, hb⟩
    have hle := length_le_of_cut hc (b := b) (a := a ++ '>' :: after) (by
      rw [hline, ← List.append_assoc, hb]
      simp [closing])
    have hlen := congrArg List.length hb
    simp only [List.length_append, closing, List.length_cons, List.length_nil] at hlen
    omega

/-- The header that a text begins with is proper. -/
theorem isProper_of_ofText? (e : ofText? t = some (h, rest)) : h.IsProper := by
  unfold ofText? at e
  split at e
  · simp at e
  · rename_i m hm
    dsimp only at e
    split at e
    · simp at e
    · rename_i inner after hc
      obtain ⟨rfl, -⟩ := Prod.mk.inj (Option.some.inj e)
      refine isProper_of_cut (fun hn => ?_) hc
      simpa using List.all_eq_true.1 List.all_takeWhile _ hn

/-- A text begins with a header exactly if it can be read there. -/
theorem ofText?_eq_some_iff : ofText? t = some (h, rest) ↔ t = h.written ++ rest ∧ h.IsProper := by
  constructor
  · exact fun e => ⟨eq_append_of_ofText? e, isProper_of_ofText? e⟩
  · rintro ⟨rfl, hp⟩
    obtain ⟨m, inner⟩ := h
    have hline : (inner ++ (closing ++ rest)).takeWhile (· ≠ '\n') =
        inner ++ closing ++ rest.takeWhile (· ≠ '\n') := by
      rw [List.takeWhile_append_of_pos, List.takeWhile_append_of_pos, List.append_assoc]
      · exact List.all_eq_true.1 (by decide)
      · intro c hc
        have hne : c ≠ '\n' := by
          rintro rfl
          exact hp.oneLine hc
        simpa using hne
    have hcut : cut closing (inner ++ closing ++ rest.takeWhile (· ≠ '\n')) =
        some (inner, rest.takeWhile (· ≠ '\n')) := cut_of_not_infix hp.ends _
    rw [ofText?, written, List.append_assoc, List.append_assoc, Marker.ofText?_opening]
    simp only [List.drop_left, hline, hcut]
    rw [← List.append_assoc, ← List.length_append, List.drop_left]

theorem IsProper.not_mem_written (hp : h.IsProper) : '\n' ∉ h.written := by
  simp only [written, List.mem_append, not_or]
  exact ⟨⟨h.marker.not_mem_opening.2, hp.oneLine⟩, by decide⟩

/-- A proper header holds no closing bracket before its end. -/
theorem IsProper.not_infix (hp : h.IsProper) : ¬ closing <:+: h.written.dropLast := by
  intro hi
  have hw : h.written.dropLast = h.marker.opening ++ (h.inner ++ ['>', '>']) := by
    rw [written, List.append_assoc, List.dropLast_append_of_ne_nil (by simp [closing]),
      List.dropLast_append_of_ne_nil (by simp [closing])]
    rfl
  rw [hw] at hi
  exact hp.ends (infix_of_infix_append h.marker.not_mem_opening.1 hi)

theorem closing_infix_written (h : Header) : closing <:+: h.written :=
  (List.suffix_append _ _).isInfix

end Header

/-! ## The first header -/

variable {h : Header} {t before rest : Text}

theorem findHeader_eq_none_iff :
    findHeader t = none ↔ ∀ (h : Header) b a, h.IsProper → t ≠ b ++ h.written ++ a := by
  induction t with
  | nil =>
    simp only [findHeader, true_iff]
    intro h b a _ ht
    have := congrArg List.length ht
    have := h.length_written_pos
    simp only [List.length_append, List.length_nil] at *
    omega
  | cons c t ih =>
    rw [findHeader]
    rcases hf : Header.ofText? (c :: t) with _ | ⟨h, rest⟩
    · simp only [Option.map_eq_none_iff, ih]
      constructor
      · intro hn h b a hp ht
        cases b with
        | nil =>
          rw [Header.ofText?_eq_some_iff.2 ⟨ht, hp⟩] at hf
          simp at hf
        | cons d b => exact hn h b a hp (by simpa using (List.cons.inj ht).2)
      · intro hn h b a hp ht
        exact hn h (c :: b) a hp (by simp [ht])
    · obtain ⟨ht, hp⟩ := Header.ofText?_eq_some_iff.1 hf
      simp only [reduceCtorEq, false_iff]
      intro hn
      exact hn h [] rest hp ht

theorem isProper_of_findHeader (e : findHeader t = some (before, h, rest)) : h.IsProper := by
  induction t generalizing before with
  | nil => simp [findHeader] at e
  | cons c t ih =>
    rw [findHeader] at e
    split at e
    · rename_i h' rest' hf
      obtain ⟨-, rfl, -⟩ := by simpa using e
      exact Header.isProper_of_ofText? hf
    · obtain ⟨⟨before', h', rest'⟩, hf, he⟩ := Option.map_eq_some_iff.1 e
      obtain ⟨-, rfl, rfl⟩ := by simpa using he
      exact ih hf

/-- No header begins before the one that is found. -/
theorem length_le_of_findHeader (e : findHeader t = some (before, h, rest)) {h' : Header}
    {b a : Text} (hp : h'.IsProper) (ht : t = b ++ h'.written ++ a) : before.length ≤ b.length := by
  induction t generalizing before b with
  | nil => simp [findHeader] at e
  | cons c t ih =>
    rw [findHeader] at e
    split at e
    · obtain ⟨rfl, -⟩ := by simpa using e
      simp
    · rename_i hf
      obtain ⟨⟨before', h'', rest'⟩, hf', he⟩ := Option.map_eq_some_iff.1 e
      obtain ⟨rfl, rfl, rfl⟩ := by simpa using he
      cases b with
      | nil =>
        rw [Header.ofText?_eq_some_iff.2 ⟨ht, hp⟩] at hf
        simp at hf
      | cons d b =>
        have hle := ih hf' (by simpa using (List.cons.inj ht).2)
        simpa using hle

/-- **The header that is found is the one that begins first.** -/
theorem findHeader_eq_some_iff : findHeader t = some (before, h, rest) ↔
    t = before ++ h.written ++ rest ∧ h.IsProper ∧
      ∀ (h' : Header) b a, h'.IsProper → t = b ++ h'.written ++ a → before.length ≤ b.length := by
  constructor
  · exact fun e => ⟨eq_append_of_findHeader e, isProper_of_findHeader e,
      fun h' b a hp ht => length_le_of_findHeader e hp ht⟩
  · rintro ⟨rfl, hp, hfirst⟩
    obtain ⟨⟨b, h', r⟩, hf⟩ : ∃ p, findHeader (before ++ h.written ++ rest) = some p := by
      refine Option.ne_none_iff_exists'.1 fun hn => ?_
      exact findHeader_eq_none_iff.1 hn h before rest hp rfl
    have hp' := isProper_of_findHeader hf
    have heq := eq_append_of_findHeader hf
    have hle := hfirst h' b r hp' heq
    have hge := length_le_of_findHeader hf hp rfl
    rw [List.append_assoc, List.append_assoc] at heq
    obtain ⟨rfl, htail⟩ := List.append_inj heq (by omega)
    have hread : Header.ofText? (h.written ++ rest) = some (h', r) :=
      Header.ofText?_eq_some_iff.2 ⟨htail, hp'⟩
    rw [Header.ofText?_eq_some_iff.2 ⟨rfl, hp⟩] at hread
    obtain ⟨rfl, rfl⟩ := Prod.mk.inj (Option.some.inj hread)
    exact hf

theorem findHeader_written (hp : h.IsProper) (rest : Text) :
    findHeader (h.written ++ rest) = some ([], h, rest) :=
  findHeader_eq_some_iff.2 ⟨rfl, hp, by simp⟩

/-- A text that is added behind a header begins no header before it. -/
theorem findHeader_append (e : findHeader t = some (before, h, rest)) (x : Text) :
    findHeader (t ++ x) = some (before, h, rest ++ x) := by
  have ht := eq_append_of_findHeader e
  refine findHeader_eq_some_iff.2 ⟨by simp [ht], isProper_of_findHeader e, ?_⟩
  intro h' b a hp hb
  refine Nat.le_of_not_lt fun hlt => ?_
  by_cases hle : (b ++ h'.written).length ≤ t.length
  · -- a header in `t`, before the one that was found
    obtain ⟨a', rfl⟩ := List.prefix_of_prefix_length_le ⟨a, hb.symm⟩ (List.prefix_append t x) hle
    have := length_le_of_findHeader e hp rfl
    omega
  · -- a header that reaches behind `t` would hold the closing bracket of the one that was found
    have hlen := congrArg List.length ht
    simp only [List.length_append] at hle hlen
    obtain ⟨u, rfl⟩ : b <+: before := by
      have hfirst : b <+: t ++ x := ⟨h'.written ++ a, by rw [hb, List.append_assoc]⟩
      have hsecond : before <+: t ++ x := ⟨h.written ++ rest ++ x, by simp [ht]⟩
      exact List.prefix_of_prefix_length_le hfirst hsecond (by omega)
    have hw : u ++ h.written <+: h'.written.dropLast := by
      have hwhole : u ++ h.written ++ (rest ++ x) = h'.written ++ a := by
        have hb' : b ++ (u ++ h.written ++ (rest ++ x)) = b ++ (h'.written ++ a) := by
          simpa [ht] using hb
        exact List.append_cancel_left hb'
      refine List.prefix_of_prefix_length_le ⟨rest ++ x, hwhole⟩
        ((List.dropLast_prefix _).trans (List.prefix_append _ a)) ?_
      simp only [List.length_append, List.length_dropLast] at hlen ⊢
      omega
    refine hp.not_infix (h.closing_infix_written.trans ?_)
    exact (List.suffix_append u h.written).isInfix.trans hw.isInfix

/-- No header reaches over a line end. -/
theorem findHeader_append_line {u v : Text} (hu : findHeader u = none) (hv : findHeader v = none) :
    findHeader (u ++ '\n' :: v) = none := by
  refine findHeader_eq_none_iff.2 fun h b a hp ht => ?_
  rcases infix_append_cons hp.not_mem_written ⟨b, a, ht.symm⟩ with ⟨b, a, hb⟩ | ⟨b, a, hb⟩
  · exact findHeader_eq_none_iff.1 hu h b a hp hb.symm
  · exact findHeader_eq_none_iff.1 hv h b a hp hb.symm

/-- A header at the beginning of a line is the first one, if there is none above it. -/
theorem findHeader_line {u : Text} (hu : findHeader u = none) (hp : h.IsProper) (rest : Text) :
    findHeader (u ++ '\n' :: (h.written ++ rest)) = some (u ++ ['\n'], h, rest) := by
  refine findHeader_eq_some_iff.2 ⟨by simp, hp, fun h' b a hp' hb => ?_⟩
  refine Nat.le_of_not_lt fun hlt => ?_
  have hpre : b ++ h'.written <+: u ++ '\n' :: (h.written ++ rest) := ⟨a, hb.symm⟩
  have hbu : b <+: u := by
    refine List.prefix_of_prefix_length_le ((List.prefix_append _ _).trans hpre)
      (List.prefix_append _ _) ?_
    rw [List.length_append, List.length_singleton] at hlt
    omega
  obtain ⟨w, rfl⟩ := hbu
  rw [List.append_assoc, List.prefix_append_right_inj] at hpre
  obtain ⟨y, rfl⟩ := prefix_of_prefix_append_cons hp'.not_mem_written hpre
  exact findHeader_eq_none_iff.1 hu h' b y hp' (List.append_assoc _ _ _).symm

/-- A header of a part of a text is a header of the text. -/
theorem findHeader_eq_none_of_append {x y : Text} (e : findHeader (x ++ t ++ y) = none) :
    findHeader t = none := by
  refine findHeader_eq_none_iff.2 fun h b a hp ht => ?_
  exact findHeader_eq_none_iff.1 e h (x ++ b) (a ++ y) hp (by simp [ht])

end ReplyLedger.Reply
