import ReplyLedger.Proofs.Operation.CanonicalPaths
import ReplyLedger.Proofs.Reply.Rendering
import ReplyLedger.Proofs.Text.Counting
import ReplyLedger.Proofs.Text.Segments

/-!
# What is read is well formed

Every operation that is read from a reply, however damaged the reply is, has usable fields
(`WellFormed`), and there are no more operations than end marks (`operations_wellFormed`).

The argument of a header holds neither a line end nor a closing bracket, and the body of a block
neither an end mark nor a header. Both pass on to every part of a text, and the fields are parts of the
two. Trimming takes characters away at the ends, and the canonical form of a path consists of segments
of the path as it was written, so neither puts a mark together (`isSoundPath_canonicalPath`). Every
block uses up an end mark of the payload, and the payload is a part of the reply (`payload_isInfix`).
-/

namespace ReplyLedger.Reply

open Text

variable {h : Header} {t u argument body rest after : Text} {op : Operation Text}

/-! ## Well-formed operations -/

/-- What holds of every path that is read. -/
structure IsSoundPath (p : Text) : Prop where
  ne_nil : p ≠ []
  oneLine : '\n' ∉ p
  slashed : '\\' ∉ p
  not_closing : ¬ closing <:+: p

/-- What holds of every operation that is read. -/
def WellFormed : Operation Text → Prop
  | .create file content => IsSoundPath file ∧ IsPlainText content
  | .delete file => IsSoundPath file
  | .rename source target => IsSoundPath source ∧ IsSoundPath target
  | .edit file search replacement =>
    IsSoundPath file ∧ IsPlainText search ∧ search ≠ [] ∧ ¬ replaceMark <:+: search ∧
      IsPlainText replacement
  | .overwrite file content =>
    IsSoundPath file ∧ IsPlainText content ∧ ¬ searchMark <:+: content ∧ ¬ replaceMark <:+: content

/-! ## Arguments -/

/-- A part of the argument of a header. -/
structure IsArgument (t : Text) : Prop where
  oneLine : '\n' ∉ t
  not_closing : ¬ closing <:+: t

theorem IsArgument.of_isInfix (hu : IsArgument u) (ht : t <:+: u) : IsArgument t :=
  ⟨fun hn => hu.oneLine (ht.subset hn), fun hc => hu.not_closing (hc.trans ht)⟩

theorem isArgument_argument (hp : h.IsProper) : IsArgument h.argument := by
  have hinner : IsArgument h.inner :=
    ⟨hp.oneLine, fun hc => hp.ends (hc.trans (List.prefix_append _ _).isInfix)⟩
  exact hinner.of_isInfix (List.dropWhile_suffix _).isInfix

/-- The two sides of a rename are parts of its argument. -/
theorem infix_of_renameSides? {source target : Text}
    (hs : renameSides? argument = some (source, target)) :
    source <:+: argument ∧ target <:+: argument := by
  unfold renameSides? at hs
  split at hs
  · simp at hs
  · rename_i c t hstrip
    split at hs
    · simp at hs
    · rename_i before after hc
      split at hs
      · simp at hs
      · obtain ⟨rfl, rfl⟩ := Prod.mk.inj (Option.some.inj hs)
        have hwhole : c :: before ++ ['-', '>'] ++ after <:+: argument := by
          have hparts := strip_isInfix argument
          rwa [hstrip, eq_append_of_cut hc] at hparts
        rw [List.append_assoc] at hwhole
        refine ⟨(List.prefix_append _ _).isInfix.trans hwhole, ?_⟩
        exact ((List.suffix_append _ _).trans (List.suffix_append _ _)).isInfix.trans hwhole

/-! ## Canonical paths -/

theorem mem_slashed {c : Char} (hc : c ∈ slashed t) : c = '/' ∨ c ∈ t ∧ c ≠ '\\' := by
  obtain ⟨d, hd, rfl⟩ := List.mem_map.1 hc
  by_cases hb : d = '\\'
  · exact .inl (if_pos hb)
  · rw [if_neg hb]
    exact .inr ⟨hd, hb⟩

/-- A closing bracket is not put together by turning slashes. -/
theorem closing_infix_of_slashed (hc : closing <:+: slashed t) : closing <:+: t := by
  obtain ⟨b, a, hb⟩ := hc
  obtain ⟨u, a', rfl, hu, -⟩ := List.map_eq_append_iff.1 hb.symm
  obtain ⟨b', m, rfl, -, hm⟩ := List.map_eq_append_iff.1 hu
  have hfix : ∀ d ∈ m, (if d = '\\' then '/' else d) = d := by
    intro d hd
    have hmem := List.mem_map_of_mem (f := fun d => if d = '\\' then '/' else d) hd
    rw [hm] at hmem
    split at hmem
    · simp [closing] at hmem
    · exact if_neg ‹_›
  rw [List.map_congr_left hfix, List.map_id'] at hm
  exact ⟨b', a', by rw [hm]⟩

/-- A path in canonical form has a character of its own, or one from the path as it was written. -/
theorem mem_canonicalPath {c : Char} (hc : c ∈ canonicalPath t) : c = '/' ∨ c ∈ t ∧ c ≠ '\\' := by
  rw [canonicalPath_eq_tidied] at hc
  exact (mem_slashed ((tidied_sublist _).subset hc)).imp id fun h =>
    ⟨(strip_isInfix t).subset h.1, h.2⟩

theorem closing_infix_of_canonicalPath (hc : closing <:+: canonicalPath t) : closing <:+: t := by
  have hjoined : closing <:+: joinWith ['/'] (namingSegments (slashed (strip t))) := by
    rw [canonicalPath_eq_tidied, tidied] at hc
    split at hc
    · exact (infix_append_cons (u := []) (by decide) hc).resolve_left (by decide)
    · exact hc
  obtain ⟨s, hs, hc⟩ := exists_infix_of_joinWith (by decide) (by decide) hjoined
  have hslashed := hc.trans (infix_of_mem_segments (List.mem_filter.1 hs).1)
  exact (closing_infix_of_slashed hslashed).trans (strip_isInfix t)

/-- **The canonical form of an argument is a sound path**, unless it is empty. -/
theorem isSoundPath_canonicalPath (ht : IsArgument t) (h0 : canonicalPath t ≠ []) :
    IsSoundPath (canonicalPath t) where
  ne_nil := h0
  oneLine hn := by
    rcases mem_canonicalPath hn with hn | ⟨hn, -⟩
    · simp at hn
    · exact ht.oneLine hn
  slashed hb := by
    rcases mem_canonicalPath hb with hb | ⟨-, hb⟩
    · simp at hb
    · exact hb rfl
  not_closing hc := ht.not_closing (closing_infix_of_canonicalPath hc)

/-! ## Bodies -/

/-- A part of the body of a block. -/
structure IsBody (t : Text) : Prop where
  not_end : ¬ endMark <:+: t
  headerless : Headerless t

theorem IsBody.of_isInfix (hu : IsBody u) (ht : t <:+: u) : IsBody t :=
  ⟨fun he => hu.not_end (he.trans ht), fun h hl hw => hu.headerless h hl (hw.trans ht)⟩

/-- What is left of a part of a body, without the blanks around it, is a plain text. -/
theorem IsBody.isPlainText (hu : IsBody u) (ht : t <:+: u) : IsPlainText (strip t) :=
  have hstrip := hu.of_isInfix ((strip_isInfix t).trans ht)
  ⟨strip_strip t, hstrip.not_end, hstrip.headerless⟩

theorem isBody_of_cut (hc : cut endMark rest = some (body, after)) (hb : findHeader body = none) :
    IsBody body := ⟨not_infix_of_cut (by decide) hc, headerless_iff.2 hb⟩

/-! ## Blocks -/

/-- The required fields are filled. -/
theorem ne_nil_of_filled (hf : op.lacking? List.isEmpty = none) {r : Operation.Requirement}
    {value : Text} (hr : (r, value) ∈ op.required) : value ≠ [] := by
  have hnone := List.findSome?_eq_none_iff.1 hf (r, value) hr
  simpa using hnone

theorem wellFormed_of_fileOperation? {path : Text} (hp : path ≠ [] → IsSoundPath path)
    (hb : IsBody body) (hread : fileOperation? path body = some op)
    (hf : op.lacking? List.isEmpty = none) : WellFormed op := by
  unfold fileOperation? at hread
  dsimp only at hread
  split at hread
  · obtain ⟨⟨search, replacement⟩, hc, rfl⟩ := Option.map_eq_some_iff.1 hread
    have hwhole : search ++ replaceMark ++ replacement <:+: body := by
      rw [← eq_append_of_cut hc]
      exact ((List.drop_suffix _ _).trans (List.dropWhile_suffix _)).isInfix
    rw [List.append_assoc] at hwhole
    have hsearch : search <:+: body := (List.prefix_append _ _).isInfix.trans hwhole
    have hreplacement : replacement <:+: body :=
      ((List.suffix_append _ _).trans (List.suffix_append _ _)).isInfix.trans hwhole
    refine ⟨hp (ne_nil_of_filled hf (.head _)), hb.isPlainText hsearch,
      ne_nil_of_filled hf (.tail _ (.head _)), fun hr => ?_, hb.isPlainText hreplacement⟩
    exact not_infix_of_cut (by decide) hc (hr.trans (strip_isInfix search))
  · split at hread
    · simp at hread
    · rename_i hmarks
      obtain rfl := Option.some.inj hread
      rw [Bool.or_eq_true, not_or, has_iff, has_iff] at hmarks
      exact ⟨hp (ne_nil_of_filled hf (.head _)), hb.isPlainText List.infix_rfl,
        fun hs => hmarks.1 (hs.trans (strip_isInfix body)),
        fun hr => hmarks.2 (hr.trans (strip_isInfix body))⟩

/-- **A block asks for a well-formed operation, or for nothing.** -/
theorem wellFormed_of_blockOperation? {marker : Marker} (ha : IsArgument argument) (hb : IsBody body)
    (hop : blockOperation? marker argument body = some op) : WellFormed op := by
  obtain ⟨hread, hfilled⟩ := Option.filter_eq_some_iff.1 hop
  have hf : op.lacking? List.isEmpty = none := by simpa using hfilled
  have hpath {t : Text} (ht : t <:+: argument) (h0 : canonicalPath t ≠ []) :=
    isSoundPath_canonicalPath (ha.of_isInfix ht) h0
  cases marker with
  | create =>
    obtain rfl := Option.some.inj hread
    exact ⟨hpath List.infix_rfl (ne_nil_of_filled hf (.head _)),
      hb.isPlainText List.infix_rfl⟩
  | delete =>
    obtain rfl := Option.some.inj hread
    exact hpath List.infix_rfl (ne_nil_of_filled hf (.head _))
  | rename =>
    obtain ⟨⟨source, target⟩, hsides, rfl⟩ := Option.map_eq_some_iff.1 hread
    obtain ⟨hsource, htarget⟩ := infix_of_renameSides? hsides
    exact ⟨hpath hsource (ne_nil_of_filled hf (.head _)),
      hpath htarget (ne_nil_of_filled hf (.tail _ (.head _)))⟩
  | file => exact wellFormed_of_fileOperation? (hpath List.infix_rfl) hb hread hf

/-! ## The scan -/

theorem infix_of_findHeader {before : Text} (e : findHeader t = some (before, h, rest)) :
    rest <:+: t :=
  ⟨before ++ h.written, [], by rw [eq_append_of_findHeader e, List.append_nil]⟩

theorem wellFormed_of_blockFinding {offset : Nat} (hp : h.IsProper) (hb : IsBody body)
    (hop : (blockFinding h offset body).operation? = some op) : WellFormed op := by
  unfold blockFinding at hop
  split at hop
  · rename_i op' hread
    obtain rfl : op' = op := by simpa [Finding.operation?] using hop
    exact wellFormed_of_blockOperation? (isArgument_argument hp) hb hread
  · simp [Finding.operation?] at hop

theorem wellFormed_of_findingsFrom (offset : Nat) (t : Text) :
    ∀ f ∈ findingsFrom offset t, ∀ op, f.operation? = some op → WellFormed op := by
  fun_induction findingsFrom offset t with
  | case1 offset t e => simp
  | case2 offset t before h rest e start bodyStart hc ih =>
    intro f hf op hop
    rcases List.mem_cons.1 hf with rfl | hf
    · simp [Finding.operation?] at hop
    · exact ih f hf op hop
  | case3 offset t before h rest e start bodyStart body after hc skipped h' r e' ih =>
    intro f hf op hop
    rcases List.mem_cons.1 hf with rfl | hf
    · simp [Finding.operation?] at hop
    · exact ih f hf op hop
  | case4 offset t before h rest e start bodyStart body after hc e' ih =>
    intro f hf op hop
    rcases List.mem_cons.1 hf with rfl | hf
    · exact wellFormed_of_blockFinding (isProper_of_findHeader e) (isBody_of_cut hc e') hop
    · exact ih f hf op hop

/-- An open block asks for nothing, and a complete one uses up an end mark. -/
theorem length_operations_le (offset : Nat) (t : Text) :
    ((findingsFrom offset t).filterMap Finding.operation?).length ≤ occurrences endMark t := by
  have hm : endMark ≠ [] := by decide
  fun_induction findingsFrom offset t with
  | case1 offset t e => exact Nat.zero_le _
  | case2 offset t before h rest e start bodyStart hc ih =>
    rw [List.filterMap_cons_none rfl]
    exact Nat.le_trans ih (occurrences_le_of_isInfix hm (infix_of_findHeader e))
  | case3 offset t before h rest e start bodyStart body after hc skipped h' r e' ih =>
    rw [List.filterMap_cons_none rfl]
    refine Nat.le_trans ih (occurrences_le_of_isInfix hm ?_)
    exact (List.drop_suffix _ rest).isInfix.trans (infix_of_findHeader e)
  | case4 offset t before h rest e start bodyStart body after hc e' ih =>
    have hrest : occurrences endMark after + 1 ≤ occurrences endMark t := by
      rw [← occurrences_of_cut hm hc]
      exact occurrences_le_of_isInfix hm (infix_of_findHeader e)
    rw [List.filterMap_cons]
    split
    · omega
    · rw [List.length_cons]
      omega

/-- The payload is a part of the reply. -/
theorem payload_isInfix (reply : Text) : payload reply <:+: reply := by
  unfold payload
  split
  · rename_i before inner after hp
    have hinner : inner <:+: reply := by
      have hreply := joinWith_pieces fence reply
      rw [hp] at hreply
      rw [← hreply]
      exact infix_joinWith_of_mem (by simp)
    split
    · refine List.IsInfix.trans ?_ hinner
      unfold dropInfoLine
      split
      · exact List.infix_rfl
      · rename_i line rest hc
        split
        · exact List.infix_rfl
        · exact ⟨line ++ ['\n'], [], by rw [eq_append_of_cut hc, List.append_nil]⟩
    · exact List.infix_rfl
  · exact List.infix_rfl

/-- **What is read is well formed.** Whatever the reply is, every operation of it has paths that are
not empty and hold no line end, no backslash and no closing bracket, and texts without blanks around
them and without an end mark or a header; a search text is not empty and holds no replace mark, and the
new contents of a file hold no mark of an edit. There are no more operations than end marks. -/
theorem operations_wellFormed (reply : Text) :
    (∀ op ∈ operations reply, WellFormed op) ∧
      (operations reply).length ≤ occurrences endMark reply := by
  constructor
  · intro op hop
    obtain ⟨f, hf, hop⟩ := List.mem_filterMap.1 hop
    exact wellFormed_of_findingsFrom 0 (payload reply) f hf op hop
  · calc (operations reply).length
        ≤ occurrences endMark (payload reply) := length_operations_le 0 (payload reply)
      _ ≤ occurrences endMark reply := occurrences_le_of_isInfix (by decide) (payload_isInfix reply)

/-- A header that is left open, a rename without a path behind its arrow, and, with blanks and slashes
to be cleaned away, blocks that are read; an end mark is left over. -/
def untidyReply : Text :=
  ("<<<CREATE: x>>> <<<RENAME: a -> .>>><<<END>>><<<DELETE:  ./b\\c//d/ >>>\n<<<END>>>" ++
    "<<<FILE: e>>>\n<<<SEARCH>>> > \n<<<REPLACE>>>\n<<<SEARCH>>>\n<<<END>>><<<END>>>").toList

/-- What is read of it is well formed. -/
theorem operations_wellFormed_untidyReply :
    let deletion : Operation Text := .delete "b/c/d"
    let change : Operation Text := .edit "e" ">" "<<<SEARCH>>>"
    operations untidyReply = [deletion, change] ∧ WellFormed deletion ∧ WellFormed change ∧
      2 ≤ occurrences endMark untidyReply := by
  intro deletion change
  have hops : operations untidyReply = [deletion, change] := by decide +kernel
  obtain ⟨hall, hcount⟩ := operations_wellFormed untidyReply
  rw [hops] at hall hcount
  exact ⟨hops, hall deletion (by simp), hall change (by simp), hcount⟩

end ReplyLedger.Reply
