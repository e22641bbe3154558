import ReplyLedger.Proofs.Text.Replacing
import ReplyLedger.Proofs.Text.Segments

/-!
# Undoing a replacement

A mark that shares no character with the texts that it joins is found where it was put, and nowhere
else, although it may overlap itself and stand several times in a row (`pieces_joinWith`): the search
goes on behind the copy that it has found, and a copy that begins later reaches over no text. So a
replacement that shares no character with the text is undone by the opposite one
(`replaceAll_replaceAll`), with as many occurrences (`occurrences_replaceAll`).
-/

namespace ReplyLedger.Text

variable {mark new t : Text}

/-- The pieces of a text are made of its characters. -/
theorem mem_of_mem_pieces {p : Text} (hp : p ∈ pieces mark t) {c : Char} (hc : c ∈ p) : c ∈ t := by
  have h : c ∈ joinWith mark (pieces mark t) := mem_joinWith_of_mem hp hc
  rwa [joinWith_pieces] at h

/-- A mark does not occur in a text that holds none of its characters. -/
theorem not_infix_of_apart (hm : mark ≠ []) (h : ∀ c ∈ mark, c ∉ t) : ¬ mark <:+: t := by
  obtain ⟨c, m, rfl⟩ := List.exists_cons_of_ne_nil hm
  exact fun hi => h c List.mem_cons_self (hi.subset List.mem_cons_self)

/-- Behind a text that holds none of its characters, the first mark is the one that stands there. -/
theorem cut_of_apart (hm : mark ≠ []) (h : ∀ c ∈ mark, c ∉ t) (after : Text) :
    cut mark (t ++ mark ++ after) = some (t, after) := by
  refine cut_of_not_infix (fun hi => ?_) after
  obtain ⟨c, m, rfl⟩ := List.exists_cons_of_ne_nil hm
  have hlen := (infix_of_infix_append (h c List.mem_cons_self) hi).length_le
  rw [List.length_dropLast, List.length_cons] at hlen
  omega

/-- **A mark is found between the texts that it joins**, if it shares no character with them. -/
theorem pieces_joinWith (hm : mark ≠ []) {l : List Text} (hl : l ≠ [])
    (h : ∀ p ∈ l, ∀ c ∈ mark, c ∉ p) : pieces mark (joinWith mark l) = l := by
  induction l with
  | nil => exact absurd rfl hl
  | cons p l ih =>
    have hp := h p List.mem_cons_self
    cases l with
    | nil => exact pieces_of_cut_none (cut_eq_none_iff.2 (not_infix_of_apart hm hp))
    | cons q r =>
      have hr : ∀ u ∈ q :: r, ∀ c ∈ mark, c ∉ u := fun u hu => h u (List.mem_cons_of_mem p hu)
      rw [joinWith, pieces_of_cut hm (cut_of_apart hm hp _), ih (List.cons_ne_nil q r) hr]

/-- The new mark is found where the old one was. -/
theorem pieces_replaceAll (hn : new ≠ []) (h : ∀ c ∈ new, c ∉ t) :
    pieces new (replaceAll mark new t) = pieces mark t :=
  pieces_joinWith hn (pieces_ne_nil mark t) fun _ hp c hc hcp => h c hc (mem_of_mem_pieces hp hcp)

/-- **A replacement is undone by the opposite one**, if it shares no character with the text. -/
theorem replaceAll_replaceAll (hn : new ≠ []) (h : ∀ c ∈ new, c ∉ t) :
    replaceAll new mark (replaceAll mark new t) = t := by
  rw [replaceAll, pieces_replaceAll hn h, joinWith_pieces]

/-- What has been replaced is found again as often. -/
theorem occurrences_replaceAll (hn : new ≠ []) (h : ∀ c ∈ new, c ∉ t) :
    occurrences new (replaceAll mark new t) = occurrences mark t := by
  rw [occurrences, pieces_replaceAll hn h, occurrences]

end ReplyLedger.Text
