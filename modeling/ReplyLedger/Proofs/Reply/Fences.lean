import ReplyLedger.Proofs.Reply.Concatenation

/-!
# Documents in a fence

A reply may put a document of blocks in a fenced section, with any text around it. Such a reply is read
as the document is read by itself (`reading_fenced`): what stands around the fence is not read, even if
it holds blocks. The line of the opening fence is dropped from the payload or stays in it, as its words
have it (`dropInfoLine_line`), but no block begins on it, so it only moves the findings.
-/

namespace ReplyLedger.Reply

open Text

variable {p q t info doc before rest : Text} {h : Header}

/-- A document in a fence with an info string, and text before and after it. -/
def fenced (p info doc q : Text) : Text :=
  p ++ '\n' :: fence ++ info ++ '\n' :: doc ++ '\n' :: fence ++ '\n' :: q

/-! ## The payload -/

theorem not_fence_of_not_mem (ht : '\x60' ∉ t) : ¬ fence <:+: t :=
  fun hf => ht (hf.subset List.mem_cons_self)

/-- The first fence behind a text without one is that of the next line. -/
theorem cut_fence (hp : ¬ fence <:+: p) (t : Text) :
    cut fence (p ++ '\n' :: (fence ++ t)) = some (p ++ ['\n'], t) := by
  have hbegun : ¬ fence <:+: p ++ ['\n'] ++ fence.dropLast := by
    rw [List.append_assoc]
    exact not_fence_lines hp (by decide)
  have hcut := cut_of_not_infix hbegun t
  rwa [List.append_assoc, List.append_assoc] at hcut

theorem pieces_fenced (hp : ¬ fence <:+: p) (hq : ¬ fence <:+: q) (hd : ¬ fence <:+: doc)
    (hi : '\x60' ∉ info) :
    pieces fence (fenced p info doc q) = [p ++ ['\n'], info ++ '\n' :: (doc ++ ['\n']), '\n' :: q] := by
  have hinner : ¬ fence <:+: info ++ '\n' :: doc := not_fence_lines (not_fence_of_not_mem hi) hd
  have hlast : ¬ fence <:+: '\n' :: q := not_fence_lines (by decide : ¬ fence <:+: []) hq
  have hfirst : cut fence (fenced p info doc q) =
      some (p ++ ['\n'], info ++ '\n' :: doc ++ '\n' :: (fence ++ '\n' :: q)) := by
    rw [← cut_fence hp, fenced]
    simp only [List.append_assoc, List.cons_append]
  rw [pieces_of_cut (by decide) hfirst, pieces_of_cut (by decide) (cut_fence hinner _),
    pieces_of_cut_none (cut_eq_none_iff.2 hlast), List.append_assoc, List.cons_append]

/-- The info line is dropped, or nothing is. -/
theorem dropInfoLine_line (hi : '\n' ∉ info) (t : Text) :
    ∃ kept, (kept = [] ∨ kept = info ++ ['\n']) ∧ dropInfoLine (info ++ '\n' :: t) = kept ++ t := by
  have hline : ¬ ['\n'] <:+: info ++ ['\n'].dropLast := fun hf => by
    rw [List.dropLast_singleton, List.append_nil] at hf
    exact hi (hf.subset List.mem_cons_self)
  have hcut : cut ['\n'] (info ++ '\n' :: t) = some (info, t) := by
    rw [← cut_of_not_infix hline t, List.append_assoc]
    rfl
  rw [dropInfoLine, hcut]
  dsimp only
  split
  · exact ⟨info ++ ['\n'], .inr rfl, by simp⟩
  · exact ⟨[], .inl rfl, rfl⟩

/-! ## Lines around a document -/

/-- A line end behind a text changes nothing that is found in it. -/
theorem findingsFrom_lineEnd (offset : Nat) (t : Text) :
    findingsFrom offset (t ++ ['\n']) = findingsFrom offset t := by
  have hnone : IsHeaded [] := fun b a hb => by simp [endMark] at hb
  have hempty : findHeader [] = none := rfl
  rw [findingsFrom_append hnone, findingsFrom_of_none hempty, List.append_nil]

/-- Lines without a header, above a text with one, only move what is found in it. -/
theorem findingsFrom_below (hi : findHeader info = none) (e : findHeader t = some (before, h, rest))
    (offset : Nat) : findingsFrom offset (info ++ '\n' :: t) =
      (findingsFrom offset t).map (Finding.moved (info.length + 1)) := by
  rw [← findingsFrom_add]
  refine findingsFrom_congr (findHeader_below hi e) e ?_
  simp only [List.length_append, List.length_cons]
  omega

/-- **A reply with a document in a fence is read as the document.** The document has a header and no
fence, the info string is one line without a header or a backtick, and around the fence there may be
any text without a fence, with blocks or without. The operations are those of the document; so are the
findings, but for the offsets if the info line stays in the payload. -/
theorem reading_fenced (hp : ¬ fence <:+: p) (hq : ¬ fence <:+: q) (hd : ¬ fence <:+: doc)
    (hh : ¬ Headerless doc) (hline : '\n' ∉ info) (htick : '\x60' ∉ info) (hi : Headerless info) :
    operations (fenced p info doc q) = operations doc ∧
      ∃ kept, (kept = [] ∨ kept = info ++ ['\n']) ∧
        payload (fenced p info doc q) = kept ++ doc ++ ['\n'] ∧
        findings (fenced p info doc q) = (findings doc).map (Finding.moved kept.length) := by
  rw [headerless_iff] at hh hi
  obtain ⟨⟨before, h, rest⟩, e⟩ := Option.ne_none_iff_exists'.1 hh
  have e' := findHeader_append e ['\n']
  have hinner : (findHeader (info ++ '\n' :: (doc ++ ['\n']))).isSome := by
    rw [findHeader_below hi e']
    rfl
  obtain ⟨kept, hkept, hdrop⟩ := dropInfoLine_line hline (doc ++ ['\n'])
  have hpayload : payload (fenced p info doc q) = kept ++ (doc ++ ['\n']) := by
    rw [payload, pieces_fenced hp hq hd htick]
    exact (if_pos hinner).trans hdrop
  have hfound : findings (fenced p info doc q) = (findings doc).map (Finding.moved kept.length) := by
    rw [findings, hpayload, findings_of_not_fence hd]
    rcases hkept with rfl | rfl
    · rw [List.nil_append, findingsFrom_lineEnd, ← findingsFrom_add]
      rfl
    · rw [List.append_assoc, List.singleton_append, findingsFrom_below hi e', findingsFrom_lineEnd,
        List.length_append, List.length_singleton]
  refine ⟨?_, kept, hkept, by rw [hpayload, List.append_assoc], hfound⟩
  rw [operations, hfound, Finding.filterMap_operation?_moved]
  rfl

/-- A block that makes a file. -/
def makingDocument : Text := "<<<CREATE: n>>>1<<<END>>>".toList

/-- The block in a fence with more than one word behind it, between blocks that remove files. -/
def fencedReply : Text :=
  fenced "<<<DELETE: p>>><<<END>>>".toList "a text <<<".toList makingDocument
    "\x60 <<<DELETE: q>>><<<END>>>".toList

/-- The info line stays in the payload, and the file is made; nothing is removed. -/
theorem reading_fenced_fencedReply :
    payload fencedReply = "a text <<<\n<<<CREATE: n>>>1<<<END>>>\n".toList ∧
      operations fencedReply = [.create ['n'] ['1']] := by
  have hinfo : Headerless "a text <<<".toList := headerless_iff.2 (by decide)
  have hheader : ¬ Headerless makingDocument := fun hn => absurd (headerless_iff.1 hn) (by decide)
  have hp : ¬ fence <:+: "<<<DELETE: p>>><<<END>>>".toList := by decide
  have hq : ¬ fence <:+: "\x60 <<<DELETE: q>>><<<END>>>".toList := by decide
  have hd : ¬ fence <:+: makingDocument := by decide
  have hops := (reading_fenced hp hq hd hheader (by decide) (by decide) hinfo).1
  have hdocument : operations makingDocument = [.create ['n'] ['1']] := by decide +kernel
  exact ⟨by decide +kernel, hops.trans hdocument⟩

end ReplyLedger.Reply
