import ReplyLedger.Proofs.Reply.Rendering
import ReplyLedger.Proofs.Reply.Sections
import ReplyLedger.Proofs.Text.Replacing

/-!
# One reply after the other

A reply that is made of two, with a line end between them, is read as the first and then as the second
(`reading_append`): it asks for what the one asks for and then for what the other does, and notes what
the one notes, and then what the other does, farther on in the text. The first may end in a block that
is unterminated or malformed: whatever it leaves open is given up at the first header of the second, if
no end mark stands before that (`IsHeaded`).

Where a text begins matters to the offsets of its findings only (`findingsFrom_add`), and the findings
follow three rules: in a text without headers there are none (`findingsFrom_of_none`), a complete block
is read and left behind (`findingsFrom_of_block`), and of an open one only the header is left behind
(`findingsFrom_of_open`).
-/

namespace ReplyLedger.Reply

open Text

variable {t u v before rest body after : Text} {h : Header} {offset : Nat}

/-- The scan goes on behind a header that no end mark follows. -/
theorem findingsFrom_of_no_end (e : findHeader t = some (before, h, rest))
    (hc : cut endMark rest = none) (offset : Nat) :
    findingsFrom offset t = .unterminated h.marker (offset + before.length) ::
      findingsFrom (offset + before.length + h.written.length) rest := by
  rw [findingsFrom]
  split
  · simp_all
  · rename_i e'
    obtain ⟨rfl, rfl, rfl⟩ := by simpa using e.symm.trans e'
    split
    · rfl
    · simp_all

/-- The scan goes on at a header that comes before the end mark. -/
theorem findingsFrom_of_inner {skipped r : Text} {h' : Header}
    (e : findHeader t = some (before, h, rest)) (hc : cut endMark rest = some (body, after))
    (hb : findHeader body = some (skipped, h', r)) (offset : Nat) :
    findingsFrom offset t = .unterminated h.marker (offset + before.length) ::
      findingsFrom (offset + before.length + h.written.length + skipped.length)
        (rest.drop skipped.length) := by
  rw [findingsFrom]
  split
  · simp_all
  · rename_i e'
    obtain ⟨rfl, rfl, rfl⟩ := by simpa using e.symm.trans e'
    split
    · simp_all
    · rename_i hc'
      obtain ⟨rfl, rfl⟩ := by simpa using hc.symm.trans hc'
      rw [hb]

/-! ## Offsets -/

namespace Finding

/-- The finding as it is made in a text that begins farther on. -/
def moved (n : Nat) : Finding → Finding
  | .operation op => .operation op
  | .unterminated m offset => .unterminated m (n + offset)
  | .malformed m offset => .malformed m (n + offset)

@[simp] theorem operation?_moved (n : Nat) (f : Finding) : (f.moved n).operation? = f.operation? := by
  cases f <;> rfl

/-- The operations of a text do not depend on where it begins. -/
theorem filterMap_operation?_moved (n : Nat) (fs : List Finding) :
    (fs.map (moved n)).filterMap operation? = fs.filterMap operation? := by
  rw [List.filterMap_map]
  exact List.filterMap_congr fun f _ => operation?_moved n f

end Finding

theorem blockFinding_add (h : Header) (n offset : Nat) (body : Text) :
    blockFinding h (n + offset) body = (blockFinding h offset body).moved n := by
  unfold blockFinding
  cases blockOperation? h.marker h.argument body <;> rfl

/-- **Where a text begins matters to the offsets of its findings only.** -/
theorem findingsFrom_add (n offset : Nat) (t : Text) :
    findingsFrom (n + offset) t = (findingsFrom offset t).map (Finding.moved n) := by
  fun_induction findingsFrom offset t with
  | case1 offset t e => rw [findingsFrom_of_none e, List.map_nil]
  | case2 offset t before h rest e start bodyStart hc ih =>
    have hstart : n + offset + before.length = n + start := Nat.add_assoc ..
    rw [findingsFrom_of_no_end e hc, List.map_cons, ← ih, hstart, Nat.add_assoc n start]
    rfl
  | case3 offset t before h rest e start bodyStart body after hc skipped h' r e' ih =>
    have hstart : n + offset + before.length = n + start := Nat.add_assoc ..
    rw [findingsFrom_of_inner e hc e', List.map_cons, ← ih, hstart, Nat.add_assoc n start,
      Nat.add_assoc n]
    rfl
  | case4 offset t before h rest e start bodyStart body after hc e' ih =>
    have hstart : n + offset + before.length = n + start := Nat.add_assoc ..
    rw [findingsFrom_of_block e hc e', List.map_cons, ← ih, hstart, blockFinding_add,
      Nat.add_assoc n start, Nat.add_assoc n, Nat.add_assoc n]

/-- What stands before the first header matters to the offsets only, by its length. -/
theorem findingsFrom_congr {before' : Text} {offset' : Nat}
    (e : findHeader t = some (before, h, rest)) (e' : findHeader u = some (before', h, rest))
    (ho : offset + before.length = offset' + before'.length) :
    findingsFrom offset t = findingsFrom offset' u := by
  rcases hc : cut endMark rest with _ | ⟨body, after⟩
  · rw [findingsFrom_of_no_end e hc, findingsFrom_of_no_end e' hc, ho]
  · rcases hb : findHeader body with _ | ⟨skipped, h', r⟩
    · rw [findingsFrom_of_block e hc hb, findingsFrom_of_block e' hc hb, ho]
    · rw [findingsFrom_of_inner e hc hb, findingsFrom_of_inner e' hc hb, ho]

/-! ## Open blocks -/

/-- The block of a header is open if another header comes before the end mark, or no end mark
does. -/
def IsLeftOpen (rest : Text) : Prop :=
  ∀ body after, cut endMark rest = some (body, after) → findHeader body ≠ none

theorem isLeftOpen_of_inner {found : Text × Header × Text}
    (hc : cut endMark rest = some (body, after)) (hb : findHeader body = some found) :
    IsLeftOpen rest := by
  intro body' after' hcut
  obtain ⟨rfl, -⟩ := Prod.mk.inj (Option.some.inj (hc.symm.trans hcut))
  simp [hb]

/-- Of an open block the header is left behind, and nothing else. -/
theorem findingsFrom_of_open (e : findHeader t = some (before, h, rest)) (ho : IsLeftOpen rest)
    (offset : Nat) : findingsFrom offset t = .unterminated h.marker (offset + before.length) ::
      findingsFrom (offset + before.length + h.written.length) rest := by
  rcases hc : cut endMark rest with _ | ⟨body, after⟩
  · exact findingsFrom_of_no_end e hc offset
  · obtain ⟨⟨skipped, h', r⟩, hb⟩ := Option.ne_none_iff_exists'.1 (ho body after hc)
    have hrest := (findHeader_of_body hc hb).1
    have hdrop : findHeader (rest.drop skipped.length) = some ([], h', r ++ (endMark ++ after)) := by
      rw [eq_append_of_findHeader hrest, List.append_assoc, List.drop_left]
      exact findHeader_written (isProper_of_findHeader hb) _
    have hback (next : Nat) : findingsFrom (next + skipped.length) (rest.drop skipped.length) =
        findingsFrom next rest := findingsFrom_congr hdrop hrest rfl
    rw [findingsFrom_of_inner e hc hb, hback]

/-! ## The seam -/

/-- An occurrence that does not reach over a character stands before it or behind it. -/
theorem occurrence_append_cons {c : Char} {w b a : Text} (hc : c ∉ w)
    (he : u ++ c :: v = b ++ w ++ a) :
    (∃ a', u = b ++ w ++ a') ∨ ∃ b', b = u ++ c :: b' ∧ v = b' ++ w ++ a := by
  rw [List.append_assoc] at he
  rcases List.append_eq_append_iff.1 he with ⟨x, rfl, hx⟩ | ⟨x, rfl, hx⟩
  · cases x with
    | nil =>
      obtain rfl : w = [] := by
        have hw : w <+: [] ++ c :: v := ⟨a, hx.symm⟩
        exact List.prefix_nil.1 (prefix_of_prefix_append_cons hc hw)
      exact .inl ⟨[], by simp⟩
    | cons d b' =>
      obtain ⟨rfl, hv⟩ := List.cons.inj hx
      exact .inr ⟨b', rfl, hv.trans (List.append_assoc b' w a).symm⟩
  · obtain ⟨a', rfl⟩ := prefix_of_prefix_append_cons hc ⟨a, hx⟩
    exact .inl ⟨a', by simp⟩

/-- Above a line with a header there may be any lines without one. -/
theorem findHeader_below (hu : findHeader u = none) (e : findHeader v = some (before, h, rest)) :
    findHeader (u ++ '\n' :: v) = some (u ++ '\n' :: before, h, rest) := by
  refine findHeader_eq_some_iff.2 ⟨by simp [eq_append_of_findHeader e], isProper_of_findHeader e, ?_⟩
  intro h' b a hp hb
  rcases occurrence_append_cons hp.not_mem_written hb with ⟨a', ha⟩ | ⟨b', rfl, hv⟩
  · exact absurd ha (findHeader_eq_none_iff.1 hu h' b a' hp)
  · have hle := length_le_of_findHeader e hp hv
    simp only [List.length_append, List.length_cons]
    omega

/-- No end mark of a text begins before the end of its first header, and there is none if there is no
header. -/
def IsHeaded (t : Text) : Prop :=
  ∀ b a, t = b ++ endMark ++ a →
    ∃ before h rest, findHeader t = some (before, h, rest) ∧ before ++ h.written <+: b

/-- A text is headed if every place at which an end mark begins is behind its first header. -/
theorem isHeaded_of_findHeader (e : findHeader t = some (before, h, rest))
    (hm : ∀ n ≤ t.length, endMark <+: t.drop n → before ++ h.written <+: t.take n) : IsHeaded t := by
  intro b a ht
  have hn := hm b.length (by simp [ht]) (by simp [ht])
  rw [ht, List.append_assoc, List.take_left] at hn
  exact ⟨before, h, rest, e, hn⟩

/-- What is left open at the seam is given up at the first header behind it. -/
theorem isLeftOpen_append (hv : IsHeaded v) (hc : cut endMark rest = none) :
    IsLeftOpen (rest ++ '\n' :: v) := by
  intro body after hcut hb
  have hmark : '\n' ∉ endMark := by decide
  rcases occurrence_append_cons hmark (eq_append_of_cut hcut) with ⟨a', rfl⟩ | ⟨b', rfl, hv'⟩
  · exact cut_eq_none_iff.1 hc ⟨body, a', rfl⟩
  · obtain ⟨before, h, r, e, x, rfl⟩ := hv b' after hv'
    refine findHeader_eq_none_iff.1 hb h (rest ++ '\n' :: before) x (isProper_of_findHeader e) ?_
    simp

/-- **The findings of two texts are those of the one and those of the other.** -/
theorem findingsFrom_append (hv : IsHeaded v) (offset : Nat) (u : Text) :
    findingsFrom offset (u ++ '\n' :: v) =
      findingsFrom offset u ++ findingsFrom (offset + u.length + 1) v := by
  -- by induction on the length of `u`, along the three rules
  induction hn : u.length using Nat.strongRecOn generalizing offset u with
  | _ n ih =>
    have shorter (w : Text) (next : Nat) (hw : w.length < u.length) :
        findingsFrom next (w ++ '\n' :: v) =
          findingsFrom next w ++ findingsFrom (next + w.length + 1) v :=
      ih w.length (hn ▸ hw) next w rfl
    rw [← hn]
    rcases e : findHeader u with _ | ⟨before, h, rest⟩
    · rw [findingsFrom_of_none e, List.nil_append]
      rcases e' : findHeader v with _ | ⟨before, h, rest⟩
      · rw [findingsFrom_of_none e', findingsFrom_of_none (findHeader_append_line e e')]
      · refine findingsFrom_congr (findHeader_below e e') e' ?_
        simp only [List.length_append, List.length_cons]
        omega
    · have hrest := length_lt_of_findHeader e
      have hlength := congrArg List.length (eq_append_of_findHeader e)
      simp only [List.length_append] at hlength
      have e' := findHeader_append e ('\n' :: v)
      have opened (hl : IsLeftOpen rest) (hl' : IsLeftOpen (rest ++ '\n' :: v)) :
          findingsFrom offset (u ++ '\n' :: v) =
            findingsFrom offset u ++ findingsFrom (offset + u.length + 1) v := by
        have hseam : offset + before.length + h.written.length + rest.length + 1 =
            offset + u.length + 1 := by omega
        rw [findingsFrom_of_open e hl, findingsFrom_of_open e' hl', shorter rest _ hrest, hseam,
          List.cons_append]
      rcases hc : cut endMark rest with _ | ⟨body, after⟩
      · exact opened (fun body after hcut => by simp [hc] at hcut) (isLeftOpen_append hv hc)
      · have hc' := cut_append_right hc ('\n' :: v)
        rcases hb : findHeader body with _ | found
        · have hbody := congrArg List.length (eq_append_of_cut hc)
          simp only [List.length_append] at hbody
          have hafter : after.length < u.length := by omega
          have hseam : offset + before.length + h.written.length + body.length + endMark.length +
              after.length + 1 = offset + u.length + 1 := by omega
          rw [findingsFrom_of_block e hc hb, findingsFrom_of_block e' hc' hb, shorter after _ hafter,
            hseam, List.cons_append]
        · exact opened (isLeftOpen_of_inner hc hb) (isLeftOpen_of_inner hc' hb)

/-! ## Replies without fences -/

/-- A reply without a fence is read as it is. -/
theorem payload_of_not_fence (ht : ¬ fence <:+: t) : payload t = t := by
  refine payload_of_not_isWrapped (not_isWrapped_of_occurrences ?_)
  simp [occurrences, pieces_of_cut_none (cut_eq_none_iff.2 ht)]

theorem findings_of_not_fence (ht : ¬ fence <:+: t) : findings t = findingsFrom 0 t := by
  rw [findings, payload_of_not_fence ht]

/-- There is no fence over a line end. -/
theorem not_fence_lines (hu : ¬ fence <:+: u) (hv : ¬ fence <:+: v) :
    ¬ fence <:+: u ++ '\n' :: v := by
  intro h
  rcases infix_append_cons (by decide) h with h | h
  · exact hu h
  · exact hv h

/-- What is found in a reply that is made of two. -/
theorem findings_append (hu : ¬ fence <:+: u) (hv : ¬ fence <:+: v) (hh : IsHeaded v) :
    findings (u ++ '\n' :: v) = findings u ++ (findings v).map (Finding.moved (u.length + 1)) := by
  rw [findings_of_not_fence (not_fence_lines hu hv), findings_of_not_fence hu,
    findings_of_not_fence hv, findingsFrom_append hh, ← findingsFrom_add, Nat.zero_add, Nat.add_zero]

/-- **A reply that is made of two asks for what the one asks for, and then for what the other
does.** -/
theorem operations_append (hu : ¬ fence <:+: u) (hv : ¬ fence <:+: v) (hh : IsHeaded v) :
    operations (u ++ '\n' :: v) = operations u ++ operations v := by
  rw [operations, findings_append hu hv hh, List.filterMap_append,
    Finding.filterMap_operation?_moved]
  rfl

/-- **A reply that is made of two is read as the one and then as the other.** Without fences, and if
no end mark of the second stands before or in its first header, the operations are those of the one
and then those of the other; so are the findings, but for the offsets of the second part, which are
counted from the beginning of the whole. -/
theorem reading_append (hu : ¬ fence <:+: u) (hv : ¬ fence <:+: v) (hh : IsHeaded v) :
    operations (u ++ '\n' :: v) = operations u ++ operations v ∧
      findings (u ++ '\n' :: v) = findings u ++ (findings v).map (Finding.moved (u.length + 1)) :=
  ⟨operations_append hu hv hh, findings_append hu hv hh⟩

/-- An end mark without a block, a rename without an arrow, and a header that holds an end mark and is
left open. -/
def damagedReply : Text := "<<<END>>><<<RENAME: x>>><<<END>>><<<DELETE: <<<END>>>".toList

/-- A line before a block. -/
def soundReply : Text := "then\n<<<DELETE: c>>><<<END>>>".toList

theorem isHeaded_soundReply : IsHeaded soundReply := by
  have hfind : findHeader soundReply =
      some ("then\n".toList, ⟨.delete, " c".toList⟩, "<<<END>>>".toList) := by decide +kernel
  exact isHeaded_of_findHeader hfind (by decide)

/-- The block behind the damage is read, and the damage is noted. -/
theorem reading_append_damagedReply :
    ¬ fence <:+: damagedReply ∧ ¬ fence <:+: soundReply ∧ IsHeaded soundReply ∧
      operations (damagedReply ++ '\n' :: soundReply) = [.delete ['c']] ∧
      findings (damagedReply ++ '\n' :: soundReply) =
        [.malformed .rename 9, .unterminated .delete 33, .operation (.delete ['c'])] := by
  have hu : ¬ fence <:+: damagedReply := by decide
  have hv : ¬ fence <:+: soundReply := by decide
  obtain ⟨hops, hfound⟩ := reading_append hu hv isHeaded_soundReply
  have hdamaged : findings damagedReply = [.malformed .rename 9, .unterminated .delete 33] := by
    decide +kernel
  have hsound : findings soundReply = [.operation (.delete ['c'])] := by decide +kernel
  refine ⟨hu, hv, isHeaded_soundReply, ?_, ?_⟩
  · rw [hops, operations, operations, hdamaged, hsound]
    rfl
  · rw [hfound, hdamaged, hsound]
    rfl

end ReplyLedger.Reply
