import ReplyLedger.Ledger.Reply
import ReplyLedger.Proofs.Host.Outcome
import ReplyLedger.Proofs.Reply.Header
import Mathlib.Data.List.Infix

/-!
# The sections of a payload

The headers of a payload, found leftmost first and without overlap, cut it into sections: a header
and the text up to the next one (`sections`, and `IsScan`, which says it without an algorithm). The
scan of a reply moves in three ways, behind a header, back to a header inside a body, and behind an
end mark; when no header holds an end mark, all it does is to read each section by itself
(`findingsFrom_eq_map_sections`).

The main result is `readReply_eq_sections`: a section whose text has an end mark is read as the block
that its marker says, and every other section, and every block that asks for nothing, is noted.
-/

namespace ReplyLedger.Reply

open Text

/-- A header at an offset of a payload, and the text from its end to the next header. -/
structure Section where
  offset : Nat
  header : Header
  text : Text
  deriving DecidableEq, Repr

namespace Section

/-- The section as it stands in the payload. -/
def written (s : Section) : Text := s.header.written ++ s.text

/-- The operation of a section: that of the part before the first end mark. -/
def operation? (s : Section) : Option (Operation Text) :=
  match cut endMark s.text with
  | none => none
  | some (body, _) => blockOperation? s.header.marker s.header.argument body

/-- The note about a section without an operation. -/
def note? (s : Section) : Option Text :=
  match cut endMark s.text with
  | none =>
    some ("Unterminated " ++ s.header.marker.word ++ " block at offset " ++ ofNat s.offset)
  | some (body, _) =>
    match blockOperation? s.header.marker s.header.argument body with
    | some _ => none
    | none =>
      some ("Dropped malformed " ++ s.header.marker.word ++ " block at offset " ++ ofNat s.offset)

/-- What the scan makes of a section. -/
def finding (s : Section) : Finding :=
  match cut endMark s.text with
  | none => .unterminated s.header.marker s.offset
  | some (body, _) => blockFinding s.header s.offset body

theorem operation?_finding (s : Section) : s.finding.operation? = s.operation? := by
  unfold finding operation?
  split
  · rfl
  · unfold blockFinding
    split <;> simp [Finding.operation?, *]

theorem note?_finding (s : Section) : s.finding.note? = s.note? := by
  unfold finding note?
  split
  · rfl
  · unfold blockFinding
    split <;> simp [Finding.note?, *]

end Section

/-- The text before the first header. -/
def upToHeader (t : Text) : Text :=
  match findHeader t with
  | none => t
  | some (before, _, _) => before

/-- The sections of the text `t` that begins at `offset`. -/
def sectionsFrom (offset : Nat) (t : Text) : List Section :=
  match _h : findHeader t with
  | none => []
  | some (before, h, rest) =>
    ⟨offset + before.length, h, upToHeader rest⟩ ::
      sectionsFrom (offset + before.length + h.written.length) rest
termination_by t.length
decreasing_by exact length_lt_of_findHeader ‹findHeader t = _›

/-- The sections of a payload. -/
def sections (payload : Text) : List Section := sectionsFrom 0 payload

/-- Whether `ss` are the sections of the text that begins at `offset` with `prose` and goes on with
them: each header is proper, and none begins before it and behind the header before it. -/
inductive IsScan : Nat → Text → List Section → Prop
  | last {offset : Nat} {prose : Text}
    (none : ∀ (h : Header) b a, h.IsProper → prose ≠ b ++ h.written ++ a) : IsScan offset prose []
  | next {offset : Nat} {prose : Text} {s : Section} {ss : List Section}
    (proper : s.header.IsProper) (offset_eq : s.offset = offset + prose.length)
    (first : ∀ (h : Header) b a, h.IsProper →
      prose ++ (s :: ss).flatMap Section.written = b ++ h.written ++ a → prose.length ≤ b.length)
    (rest : IsScan (s.offset + s.header.written.length) s.text ss) : IsScan offset prose (s :: ss)

variable {offset : Nat} {t before rest : Text} {h : Header}

theorem sectionsFrom_of_none (e : findHeader t = none) : sectionsFrom offset t = [] := by
  rw [sectionsFrom]
  split
  · rfl
  · simp_all

theorem sectionsFrom_of_some (e : findHeader t = some (before, h, rest)) :
    sectionsFrom offset t = ⟨offset + before.length, h, upToHeader rest⟩ ::
      sectionsFrom (offset + before.length + h.written.length) rest := by
  rw [sectionsFrom]
  split
  · simp_all
  · rename_i e'
    obtain ⟨rfl, rfl, rfl⟩ := by simpa using e.symm.trans e'
    rfl

theorem upToHeader_of_some (e : findHeader t = some (before, h, rest)) :
    upToHeader t = before := by rw [upToHeader, e]

/-! ## Sections and headers -/

/-- The sections, with the text before them, are the whole text. -/
theorem upToHeader_append_written (offset : Nat) (t : Text) :
    upToHeader t ++ (sectionsFrom offset t).flatMap Section.written = t := by
  fun_induction sectionsFrom offset t with
  | case1 offset t e => simp [upToHeader, e]
  | case2 offset t before h rest e ih =>
    rw [List.flatMap_cons, Section.written, List.append_assoc, ih, upToHeader, e]
    simp [eq_append_of_findHeader e]

/-- **The sections begin with the headers that are found leftmost first and without overlap.** -/
theorem isScan_sectionsFrom (offset : Nat) (t : Text) :
    IsScan offset (upToHeader t) (sectionsFrom offset t) := by
  fun_induction sectionsFrom offset t with
  | case1 offset t e =>
    rw [upToHeader, e]
    exact .last (findHeader_eq_none_iff.1 e)
  | case2 offset t before h rest e ih =>
    have hall := upToHeader_append_written offset t
    rw [sectionsFrom_of_some e] at hall
    rw [upToHeader_of_some e] at hall ⊢
    refine .next (isProper_of_findHeader e) rfl (fun h' b a hp heq => ?_) ih
    exact length_le_of_findHeader e hp (hall.symm.trans heq)

/-- No other sections begin with the headers that are found leftmost first. -/
theorem IsScan.eq_sectionsFrom {prose : Text} {ss : List Section} (hs : IsScan offset prose ss) :
    ss = sectionsFrom offset (prose ++ ss.flatMap Section.written) ∧
      prose = upToHeader (prose ++ ss.flatMap Section.written) := by
  induction hs with
  | last hn =>
    have e := findHeader_eq_none_iff.2 hn
    simp [sectionsFrom_of_none, upToHeader, e]
  | @next offset prose s ss proper offset_eq first _ ih =>
    obtain ⟨hss, htext⟩ := ih
    have e : findHeader (prose ++ (s :: ss).flatMap Section.written) =
        some (prose, s.header, s.text ++ ss.flatMap Section.written) := by
      refine findHeader_eq_some_iff.2 ⟨?_, proper, first⟩
      simp [Section.written]
    refine ⟨?_, (upToHeader_of_some e).symm⟩
    rw [sectionsFrom_of_some e, ← htext, ← offset_eq, ← hss]

/-! ## The scan goes from section to section -/

/-- A text that begins with a header has the sections of the whole. -/
theorem sectionsFrom_drop (e : findHeader t = some (before, h, rest)) :
    sectionsFrom (offset + before.length) (t.drop before.length) = sectionsFrom offset t := by
  have hd : t.drop before.length = h.written ++ rest := by
    rw [eq_append_of_findHeader e, List.append_assoc, List.drop_left]
  rw [hd, sectionsFrom_of_some (findHeader_written (isProper_of_findHeader e) rest),
    sectionsFrom_of_some e]
  rfl

/-- No header begins within an end mark, or at it. -/
theorem opening_ne_of_suffix_endMark (m : Marker) {v x y : Text} (hv : v <:+ endMark)
    (h0 : v ≠ []) : m.opening ++ x ≠ v ++ y := by
  have hm : v ∈ endMark.tails := (List.mem_tails _ _).2 hv
  simp only [endMark, List.tails, List.mem_cons, List.not_mem_nil, or_false] at hm
  rcases hm with rfl | rfl | rfl | rfl | rfl | rfl | rfl | rfl | rfl | rfl <;>
    cases m <;> simp [Marker.opening, Marker.word] at h0 ⊢

/-- No header ends within an end mark. -/
theorem not_closing_suffix_of_prefix_endMark {u v : Text} (hv : v <+: endMark) (h0 : v ≠ [])
    (h1 : v ≠ endMark) : ¬ closing <:+ u ++ v := by
  have hm : v ∈ endMark.inits := (List.mem_inits _ _).2 hv
  rw [← List.reverse_prefix, List.reverse_append]
  simp only [endMark, List.inits, List.map_cons, List.map_nil, List.mem_cons, List.not_mem_nil,
    or_false] at hm
  rcases hm with rfl | rfl | rfl | rfl | rfl | rfl | rfl | rfl | rfl | rfl <;>
    simp [closing, endMark, List.cons_prefix_cons] at h0 h1 ⊢

/-- **The end mark of a body without headers is not overlapped by the next header**, unless that
header holds the end mark. -/
theorem findHeader_after_end {body after : Text} (hc : cut endMark t = some (body, after))
    (hb : findHeader body = none) (e : findHeader t = some (before, h, rest))
    (he : ¬ endMark <:+: h.written) :
    ∃ b, before = body ++ endMark ++ b ∧ findHeader after = some (b, h, rest) := by
  have hp := isProper_of_findHeader e
  have heq : body ++ (endMark ++ after) = before ++ (h.written ++ rest) := by
    rw [← List.append_assoc, ← eq_append_of_cut hc, eq_append_of_findHeader e, List.append_assoc]
  have hnot {b a : Text} (hba : body = b ++ h.written ++ a) : False :=
    findHeader_eq_none_iff.1 hb h b a hp hba
  rcases List.append_eq_append_iff.1 heq with ⟨u, hbefore, htail⟩ | ⟨u, hbody, htail⟩
  · rcases List.append_eq_append_iff.1 htail with ⟨v, rfl, hafter⟩ | ⟨v, hmark, hwritten⟩
    · -- the header begins behind the end mark
      refine ⟨v, by rw [hbefore, List.append_assoc], ?_⟩
      refine findHeader_eq_some_iff.2 ⟨by simp [hafter], hp, fun h' b a hp' hba => ?_⟩
      have hle := length_le_of_findHeader e hp' (b := body ++ endMark ++ b) (a := a) (by
        rw [eq_append_of_cut hc, hba]
        simp)
      rw [hbefore] at hle
      simp only [List.length_append] at hle
      omega
    · -- the header begins at the end mark or within it
      by_cases hv : v = []
      · subst hv
        refine ⟨[], by simp [hbefore, hmark], ?_⟩
        rw [List.nil_append] at hwritten
        rw [← hwritten]
        exact findHeader_written hp rest
      · rw [Header.written, List.append_assoc, List.append_assoc] at hwritten
        exact absurd hwritten (opening_ne_of_suffix_endMark _ ⟨u, hmark.symm⟩ hv)
  · rcases List.append_eq_append_iff.1 htail with ⟨v, hu, -⟩ | ⟨v, hwritten, hmark⟩
    · exact (hnot (b := before) (a := v) (by rw [hbody, hu, List.append_assoc])).elim
    · rcases List.append_eq_append_iff.1 hmark with ⟨w, hv, -⟩ | ⟨w, hmark, -⟩
      · -- the header holds the end mark
        exact absurd ⟨u, w, by rw [hwritten, hv, List.append_assoc]⟩ he
      · -- the header ends at the end mark or within it
        by_cases hv : v = []
        · exact (hnot (b := before) (a := []) (by simp [hbody, hwritten, hv])).elim
        · by_cases hw : v = endMark
          · exact absurd ⟨u, [], by simp [hwritten, hw]⟩ he
          · have hends : closing <:+ u ++ v := by
              rw [← hwritten]
              exact List.suffix_append _ _
            exact absurd hends (not_closing_suffix_of_prefix_endMark ⟨w, hmark.symm⟩ hv hw)

/-! ## The end mark of a section -/

/-- Text that is left without an end mark has none up to its next header. -/
theorem cut_upToHeader_of_none (hc : cut endMark t = none) : cut endMark (upToHeader t) = none := by
  refine cut_eq_none_iff.2 fun hi => cut_eq_none_iff.1 hc (hi.trans ?_)
  exact ⟨[], _, upToHeader_append_written 0 t⟩

/-- A header in a body comes before the end mark, and none is left in front of it. -/
theorem findHeader_of_body {body after : Text} (hc : cut endMark t = some (body, after))
    (e : findHeader body = some (before, h, rest)) :
    findHeader t = some (before, h, rest ++ (endMark ++ after)) ∧
      cut endMark (upToHeader t) = none := by
  have hbody : before ++ (h.written ++ rest) = body := by
    rw [eq_append_of_findHeader e, List.append_assoc]
  have ht : findHeader t = some (before, h, rest ++ (endMark ++ after)) := by
    rw [eq_append_of_cut hc, List.append_assoc]
    exact findHeader_append e _
  refine ⟨ht, ?_⟩
  rw [upToHeader_of_some ht]
  refine cut_eq_none_iff.2 fun ⟨b, a, hba⟩ => ?_
  have hle := length_le_of_cut hc (b := b) (a := a ++ (h.written ++ rest ++ (endMark ++ after)))
    (by rw [eq_append_of_cut hc, ← hbody, ← hba]; simp)
  have hlen := congrArg List.length hba
  rw [← hbody] at hle
  simp only [List.length_append, endMark, List.length_cons, List.length_nil] at hle hlen
  omega

/-- An end mark up to the next header is the first one that is left. -/
theorem cut_upToHeader {body after u : Text} (hc : cut endMark t = some (body, after))
    (hu : upToHeader t = body ++ endMark ++ u) : cut endMark (upToHeader t) = some (body, u) := by
  refine cut_eq_some_iff.2 ⟨hu, fun b a hba => ?_⟩
  refine length_le_of_cut hc (a := a ++ (sectionsFrom 0 t).flatMap Section.written) ?_
  rw [← List.append_assoc, ← hba, upToHeader_append_written]

/-- **The scan reads each section by itself**, if no header holds the end mark. -/
theorem findingsFrom_eq_map_sections (offset : Nat) (t : Text)
    (he : ∀ s ∈ sectionsFrom offset t, ¬ endMark <:+: s.header.written) :
    findingsFrom offset t = (sectionsFrom offset t).map Section.finding := by
  fun_induction findingsFrom offset t with
  | case1 offset t e => rw [sectionsFrom_of_none e, List.map_nil]
  | case2 offset t before h rest e start bodyStart hc ih =>
    -- no end mark is left
    rw [sectionsFrom_of_some e] at he ⊢
    rw [List.map_cons, ih fun s hs => he s (List.mem_cons_of_mem _ hs), Section.finding,
      cut_upToHeader_of_none hc]
  | case3 offset t before h rest e start bodyStart body after hc skipped h' r e' ih =>
    -- another header comes before the end mark
    obtain ⟨hrest, htext⟩ := findHeader_of_body hc e'
    have hsections : sectionsFrom (bodyStart + skipped.length) (rest.drop skipped.length) =
        sectionsFrom bodyStart rest := sectionsFrom_drop hrest
    rw [sectionsFrom_of_some e] at he ⊢
    rw [hsections] at ih
    rw [List.map_cons, ih fun s hs => he s (List.mem_cons_of_mem _ hs), Section.finding, htext]
  | case4 offset t before h rest e start bodyStart body after hc e' ih =>
    -- a complete block
    rw [sectionsFrom_of_some e] at he ⊢
    have hblock {u : Text} (hu : upToHeader rest = body ++ endMark ++ u) :
        Section.finding ⟨start, h, upToHeader rest⟩ = blockFinding h start body := by
      rw [Section.finding, cut_upToHeader hc hu]
    rcases hf : findHeader rest with _ | ⟨b, h', r⟩
    · have hafter : findHeader after = none := by
        refine findHeader_eq_none_of_append (x := body ++ endMark) (y := []) ?_
        rw [List.append_nil, ← eq_append_of_cut hc, hf]
      have hup : upToHeader rest = body ++ endMark ++ after := by
        rw [upToHeader, hf]
        exact eq_append_of_cut hc
      rw [ih (by simp [sectionsFrom_of_none hafter]), sectionsFrom_of_none hafter,
        sectionsFrom_of_none hf, List.map_cons, ← hblock hup]
    · have hends : ¬ endMark <:+: h'.written := by
        refine he ⟨bodyStart + b.length, h', upToHeader r⟩ (List.mem_cons_of_mem _ ?_)
        rw [sectionsFrom_of_some hf]
        exact List.mem_cons_self
      obtain ⟨u, rfl, hafter⟩ := findHeader_after_end hc e' hf hends
      have hup : upToHeader rest = body ++ endMark ++ u := upToHeader_of_some hf
      have hsections : sectionsFrom (bodyStart + body.length + endMark.length) after =
          sectionsFrom bodyStart rest := by
        rw [sectionsFrom_of_some hafter, sectionsFrom_of_some hf]
        simp [Nat.add_assoc]
      rw [hsections] at ih
      rw [List.map_cons, ih fun s hs => he s (List.mem_cons_of_mem _ hs), ← hblock hup]

/-! ## Reading a reply -/

theorem outcome_forM_say (level : Level) (ts : List Text) (host : Host) :
    outcome (ts.forM fun t => Action.say level t) host =
      (.ok (), { host with
        console.transcript := host.console.transcript ++ ts.map fun t => .message level t }) := by
  induction ts generalizing host with
  | nil => simp
  | cons t ts ih =>
    change outcome (Action.say level t >>= fun _ => ts.forM fun t => Action.say level t) host = _
    rw [outcome_bind_of_ok (Action.outcome_say level t host), ih]
    simp [Console.emit]

/-- **A reply is read section by section.** The sections of the payload begin with its headers, found
leftmost first and without overlap. If no header holds the end mark, the operations of the reply are
those of its sections, in order, and one note is shown for each section without an operation. -/
theorem readReply_eq_sections (reply : Text) :
    (∃ prose, payload reply = prose ++ (sections (payload reply)).flatMap Section.written ∧
      IsScan 0 prose (sections (payload reply))) ∧
    ((∀ s ∈ sections (payload reply), ¬ endMark <:+: s.header.written) →
      operations reply = (sections (payload reply)).filterMap Section.operation? ∧
      notes reply = (sections (payload reply)).filterMap Section.note? ∧
      ∀ host, outcome (Ledger.readReply reply) host =
        (.ok (((sections (payload reply)).filterMap Section.operation?).map fun op =>
            op.map Json.Value.text),
          { host with
            console.transcript := host.console.transcript ++
              ((sections (payload reply)).filterMap Section.note?).map
                fun note => .message .debug note })) := by
  refine ⟨⟨upToHeader (payload reply), (upToHeader_append_written 0 _).symm,
    isScan_sectionsFrom 0 _⟩, fun he => ?_⟩
  have hf : findings reply = (sections (payload reply)).map Section.finding :=
    findingsFrom_eq_map_sections 0 _ he
  have hops : operations reply = (sections (payload reply)).filterMap Section.operation? := by
    rw [operations, hf, List.filterMap_map]
    exact List.filterMap_congr fun s _ => s.operation?_finding
  have hnotes : notes reply = (sections (payload reply)).filterMap Section.note? := by
    rw [notes, hf, List.filterMap_map]
    exact List.filterMap_congr fun s _ => s.note?_finding
  refine ⟨hops, hnotes, fun host => ?_⟩
  rw [Ledger.readReply, outcome_bind_of_ok (outcome_forM_say .debug _ host), hops, hnotes]
  rfl

/-- A reply with a header inside a body, and a header without an end mark. -/
def nestedReply : Text := "<<<CREATE: a>>>x<<<DELETE: b>>>\n<<<END>>> <<<FILE: c>>>".toList

theorem sections_nestedReply : sections (payload nestedReply) =
    [⟨0, ⟨.create, [' ', 'a']⟩, ['x']⟩, ⟨16, ⟨.delete, [' ', 'b']⟩, '\n' :: endMark ++ [' ']⟩,
      ⟨42, ⟨.file, [' ', 'c']⟩, []⟩] := by cbv

/-- The block inside the body is read, and the two without an end mark are noted. -/
theorem readReply_nestedReply :
    (∀ s ∈ sections (payload nestedReply), ¬ endMark <:+: s.header.written) ∧
      operations nestedReply = [.delete ['b']] ∧
      notes nestedReply = ["Unterminated CREATE block at offset 0".toList,
        "Unterminated FILE block at offset 42".toList] := by
  have he : ∀ s ∈ sections (payload nestedReply), ¬ endMark <:+: s.header.written := by
    rw [sections_nestedReply]
    decide
  obtain ⟨hops, hnotes, -⟩ := (readReply_eq_sections nestedReply).2 he
  rw [hops, hnotes, sections_nestedReply]
  refine ⟨by rwa [sections_nestedReply] at he, by decide, by decide⟩

end ReplyLedger.Reply
