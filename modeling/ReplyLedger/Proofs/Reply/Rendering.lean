import ReplyLedger.Proofs.Reply.Header
import ReplyLedger.Proofs.Text.Strip
import ReplyLedger.Reply.Reading
import Mathlib.Tactic.ByContra

/-!
# Writing operations as blocks

`block` writes an operation as a block of a reply, and `render` puts blocks between pieces of prose.
What has been written is read again: the scan finds the header of each block where it was put
(`findHeader_line`), the end mark after it, and takes the operation from what is between
(`blockOperation?_body`). The main result is `operations_render`.

The conditions are on the fields of an operation: paths are canonical and fit in a header
(`IsPlainPath`), other texts have no blanks around them and hold no mark that the block is read by
(`IsPlainText`, `Writable`).
-/

namespace ReplyLedger.Reply

open Text

/-- An operation as a block. -/
def block : Operation Text → Text
  | .create file content =>
    "<<<CREATE: " ++ file ++ ">>>\n" ++ content ++ "\n<<<END>>>"
  | .delete file =>
    "<<<DELETE: " ++ file ++ ">>>\n<<<END>>>"
  | .rename source target =>
    "<<<RENAME: " ++ source ++ " -> " ++ target ++ ">>>\n<<<END>>>"
  | .edit file search replacement =>
    "<<<FILE: " ++ file ++ ">>>\n<<<SEARCH>>>\n" ++ search ++ "\n<<<REPLACE>>>\n" ++ replacement ++
      "\n<<<END>>>"
  | .overwrite file content =>
    "<<<FILE: " ++ file ++ ">>>\n" ++ content ++ "\n<<<END>>>"

/-- Operations as blocks, each with a piece of prose behind it, after a first piece of prose. -/
def render (prose : Text) : List (Operation Text × Text) → Text
  | [] => prose
  | (op, next) :: rest => prose ++ "\n" ++ block op ++ "\n" ++ render next rest

/-! ## What can be written -/

/-- Whether no header stands in a text: no opening of a marker is followed by a closing bracket on
the same line. -/
def Headerless (t : Text) : Prop := ∀ h : Header, '\n' ∉ h.inner → ¬ h.written <:+: t

/-- Whether a path can be written in a header. -/
structure IsPlainPath (p : Text) : Prop where
  ne_nil : p ≠ []
  canonical : canonicalPath p = p
  oneLine : '\n' ∉ p
  not_closing : ¬ closing <:+: p
  not_bracket : p.getLast? ≠ some '>'

/-- Whether a text can be written in the body of a block. -/
structure IsPlainText (t : Text) : Prop where
  stripped : strip t = t
  not_end : ¬ endMark <:+: t
  headerless : Headerless t

/-- Whether an operation can be written as a block. -/
def Writable : Operation Text → Prop
  | .create file content => IsPlainPath file ∧ IsPlainText content
  | .delete file => IsPlainPath file
  | .rename source target => IsPlainPath source ∧ ¬ ['-', '>'] <:+: source ∧ IsPlainPath target
  | .edit file search replacement =>
    IsPlainPath file ∧ IsPlainText search ∧ search ≠ [] ∧ ¬ replaceMark <:+: search ∧
      IsPlainText replacement
  | .overwrite file content =>
    IsPlainPath file ∧ IsPlainText content ∧ ¬ searchMark <:+: content ∧
      ¬ replaceMark <:+: content

/-- Whether a reply is wrapped: it has exactly two fences, and a header stands between them. -/
def IsWrapped (reply : Text) : Prop :=
  ∃ before inner after, pieces fence reply = [before, inner, after] ∧ ¬ Headerless inner

/-- A text holds no header exactly if none is found. -/
theorem headerless_iff {t : Text} : Headerless t ↔ findHeader t = none := by
  rw [findHeader_eq_none_iff]
  constructor
  · intro hn h b a hp ht
    exact hn h hp.oneLine ⟨b, a, ht.symm⟩
  · rintro hn ⟨m, inner⟩ hline ⟨b, a, ht⟩
    -- the header may hold closing brackets; it ends at the first of them
    obtain ⟨⟨inner', x⟩, hc⟩ : ∃ p, cut closing (inner ++ closing) = some p := by
      refine Option.ne_none_iff_exists'.1 fun hc => cut_eq_none_iff.1 hc ?_
      exact (List.suffix_append inner closing).isInfix
    have heq := eq_append_of_cut hc
    have hp : (⟨m, inner'⟩ : Header).IsProper :=
      Header.isProper_of_cut (by simpa [closing] using hline) hc
    refine hn ⟨m, inner'⟩ b (x ++ a) hp ?_
    rw [← ht, Header.written, Header.written, List.append_assoc m.opening, heq]
    simp

theorem payload_of_not_isWrapped {reply : Text} (h : ¬ IsWrapped reply) :
    payload reply = reply := by
  unfold payload
  split
  · rename_i before inner after hp
    have hi : findHeader inner = none := by
      by_contra hi
      exact h ⟨before, inner, after, hp, fun hl => hi (headerless_iff.1 hl)⟩
    simp [hi]
  · rfl

/-- A reply is not wrapped unless there are exactly two fences in it. -/
theorem not_isWrapped_of_occurrences {reply : Text} (h : occurrences fence reply ≠ 2) :
    ¬ IsWrapped reply := by
  rintro ⟨before, inner, after, hp, -⟩
  rw [occurrences, hp] at h
  exact h rfl

/-! ## Headers and bodies of blocks -/

/-- The header of the block of an operation. -/
def headerOf : Operation Text → Header
  | .create file _ => ⟨.create, ' ' :: file⟩
  | .delete file => ⟨.delete, ' ' :: file⟩
  | .rename source target => ⟨.rename, ' ' :: source ++ ' ' :: '-' :: '>' :: ' ' :: target⟩
  | .edit file _ _ => ⟨.file, ' ' :: file⟩
  | .overwrite file _ => ⟨.file, ' ' :: file⟩

/-- The parts of the block of an operation between its header and its end mark, each of which begins
on a line of its own. -/
def partsOf : Operation Text → List Text
  | .create _ content => [content]
  | .delete _ => []
  | .rename _ _ => []
  | .edit _ search replacement => [searchMark, search, replaceMark, replacement]
  | .overwrite _ content => [content]

/-- The body of the block of an operation. -/
def bodyOf (op : Operation Text) : Text := (partsOf op).flatMap (fun part => '\n' :: part) ++ ['\n']

theorem block_eq (op : Operation Text) :
    block op = (headerOf op).written ++ bodyOf op ++ endMark := by
  delta block
  cases op <;> simp [headerOf, bodyOf, partsOf, Header.written, Marker.opening, Marker.word, closing, endMark,
    searchMark, replaceMark]

/-! ## Headers are proper -/

theorem IsPlainPath.not_closing_append {p : Text} (hp : IsPlainPath p) :
    ¬ closing <:+: p ++ ['>', '>'] := by
  obtain ⟨q, c, rfl⟩ := (List.eq_nil_or_concat p).resolve_left hp.ne_nil
  have hc : c ≠ '>' := by
    rintro rfl
    exact hp.not_bracket (by simp)
  intro h
  rw [List.concat_eq_append, List.append_assoc, List.singleton_append] at h
  rcases infix_append_cons (by simpa [closing] using hc) h with hi | hi
  · refine hp.not_closing (hi.trans ?_)
    rw [List.concat_eq_append]
    exact (List.prefix_append q [c]).isInfix
  · exact absurd hi (by decide)

/-- A blank does not stand in a closing bracket. -/
theorem not_closing_append_blank {u v : Text} (hu : ¬ closing <:+: u) (hv : ¬ closing <:+: v) :
    ¬ closing <:+: u ++ ' ' :: v := by
  intro h
  rcases infix_append_cons (by decide) h with hi | hi
  · exact hu hi
  · exact hv hi

theorem isProper_of_isPlainPath {m : Marker} {p : Text} (hp : IsPlainPath p) :
    (⟨m, ' ' :: p⟩ : Header).IsProper := by
  constructor
  · simpa using hp.oneLine
  · exact not_closing_append_blank (u := []) (by decide) hp.not_closing_append

theorem isProper_headerOf {op : Operation Text} (h : Writable op) : (headerOf op).IsProper := by
  cases op with
  | create file content => exact isProper_of_isPlainPath h.1
  | delete file => exact isProper_of_isPlainPath h
  | rename source target =>
    obtain ⟨hs, -, ht⟩ := h
    constructor
    · simpa [headerOf] using ⟨hs.oneLine, ht.oneLine⟩
    · have hsource := not_closing_append_blank (u := []) (by decide) hs.not_closing
      have harrow := not_closing_append_blank (u := ['-', '>']) (by decide) ht.not_closing_append
      simpa [headerOf] using not_closing_append_blank hsource harrow
  | edit file search replacement => exact isProper_of_isPlainPath h.1
  | overwrite file content => exact isProper_of_isPlainPath h.1

/-! ## Bodies are read up to their end mark -/

/-- A mark does not stand in lines if it does not stand in any of them. -/
theorem not_infix_lines {mark last : Text} {parts : List Text} (hm : '\n' ∉ mark)
    (hparts : ∀ part ∈ parts, ¬ mark <:+: part) (hlast : ¬ mark <:+: last) (first : Text)
    (hfirst : ¬ mark <:+: first) :
    ¬ mark <:+: first ++ (parts.flatMap (fun part => '\n' :: part) ++ '\n' :: last) := by
  induction parts generalizing first with
  | nil =>
    intro h
    exact (infix_append_cons hm h).elim hfirst hlast
  | cons part parts ih =>
    intro h
    rw [List.flatMap_cons, List.cons_append, List.cons_append, List.append_assoc] at h
    refine (infix_append_cons hm h).elim hfirst ?_
    exact ih (fun p hp => hparts p (List.mem_cons_of_mem _ hp)) part
      (hparts part List.mem_cons_self)

/-- No part of a block holds what ends the block or opens another. -/
theorem plain_of_mem_partsOf {op : Operation Text} (h : Writable op) {part : Text}
    (hp : part ∈ partsOf op) : ¬ endMark <:+: part ∧ Headerless part := by
  have hsearch : ¬ endMark <:+: searchMark ∧ Headerless searchMark :=
    ⟨by decide, headerless_iff.2 (by decide)⟩
  have hreplace : ¬ endMark <:+: replaceMark ∧ Headerless replaceMark :=
    ⟨by decide, headerless_iff.2 (by decide)⟩
  have hplain {t : Text} (ht : IsPlainText t) : ¬ endMark <:+: t ∧ Headerless t :=
    ⟨ht.not_end, ht.headerless⟩
  cases op with
  | create file content =>
    obtain rfl := List.mem_singleton.1 hp
    exact hplain h.2
  | delete file => simp [partsOf] at hp
  | rename source target => simp [partsOf] at hp
  | edit file search replacement =>
    obtain ⟨-, hs, -, -, hr⟩ := h
    simp only [partsOf, List.mem_cons, List.not_mem_nil, or_false] at hp
    rcases hp with rfl | rfl | rfl | rfl
    · exact hsearch
    · exact hplain hs
    · exact hreplace
    · exact hplain hr
  | overwrite file content =>
    obtain rfl := List.mem_singleton.1 hp
    exact hplain h.2.1

/-- The end mark is found where the body ends. -/
theorem cut_endMark_body {op : Operation Text} (h : Writable op) (rest : Text) :
    cut endMark (bodyOf op ++ endMark ++ rest) = some (bodyOf op, rest) := by
  refine cut_of_not_infix ?_ rest
  rw [bodyOf, List.append_assoc]
  exact not_infix_lines (by decide) (fun p hp => (plain_of_mem_partsOf h hp).1) (by decide) []
    (by decide)

/-- No header stands in the body. -/
theorem findHeader_body {op : Operation Text} (h : Writable op) : findHeader (bodyOf op) = none := by
  refine headerless_iff.1 fun header hline => ?_
  have h0 : ¬ header.written <:+: [] := fun hi => by
    have := header.length_written_pos
    simp [List.infix_nil.1 hi] at this
  refine not_infix_lines ?_ (fun p hp => (plain_of_mem_partsOf h hp).2 header hline) h0 [] h0
  simp only [Header.written, List.mem_append, not_or]
  exact ⟨⟨header.marker.not_mem_opening.2, hline⟩, by decide⟩

/-! ## What is read is what was written -/

theorem strip_body (t : Text) : strip ('\n' :: t ++ ['\n']) = strip t := by
  rw [strip_append_right _ (by decide), ← List.singleton_append, strip_append_left (by decide)]

theorem strip_argument (h : Header) : strip h.argument = strip h.inner := by
  have hblank : AllBlank (h.inner.takeWhile fun c => c = ' ' || c = '\t') := by
    intro c hc
    have hc' := List.all_eq_true.1 List.all_takeWhile c hc
    simp only [Bool.or_eq_true, decide_eq_true_eq] at hc'
    rcases hc' with rfl | rfl <;> decide
  have hs := strip_append_left hblank h.argument
  rw [Header.argument, List.takeWhile_append_dropWhile] at hs
  rw [Header.argument, hs]

/-- The argument of a header with a path is read as the path. -/
theorem canonicalPath_argument {m : Marker} {p : Text} (hp : IsPlainPath p) :
    canonicalPath (⟨m, ' ' :: p⟩ : Header).argument = p := by
  have hs : strip (' ' :: p) = strip p := strip_append_left (x := [' ']) (by decide) p
  rw [canonicalPath_congr ((strip_argument _).trans hs), hp.canonical]

/-- The two sides of a rename are read as its paths. -/
theorem renameSides?_argument {source target : Text} (hs : IsPlainPath source)
    (hsource : ¬ ['-', '>'] <:+: source) (ht : IsPlainPath target) :
    ∃ s t, renameSides? (headerOf (.rename source target)).argument = some (s, t) ∧
      canonicalPath s = source ∧ canonicalPath t = target := by
  have hs0 := strip_ne_nil_of_canonicalPath hs.canonical hs.ne_nil
  have ht0 := strip_ne_nil_of_canonicalPath ht.canonical ht.ne_nil
  have hstrip : strip (headerOf (.rename source target)).argument =
      stripLeft source ++ [' ', '-', '>', ' '] ++ stripRight target := by
    rw [strip_argument, ← strip_append_append hs0 ht0]
    simpa [headerOf] using strip_append_left (x := [' ']) (by decide)
      (source ++ [' ', '-', '>', ' '] ++ target)
  obtain ⟨c, u, hu⟩ := List.exists_cons_of_ne_nil (stripLeft_ne_nil hs0)
  refine ⟨stripLeft source ++ [' '], ' ' :: stripRight target, ?_, ?_, ?_⟩
  · have harrow : ¬ ['-', '>'] <:+: (u ++ [' ']) ++ ['-', '>'].dropLast := by
      intro h
      have hi : ['-', '>'] <:+: u ++ ' ' :: ['-'] := by simpa using h
      rcases infix_append_cons (by decide) hi with hi | hi
      · obtain ⟨x, -, hx⟩ := exists_eq_append_stripLeft source
        refine hsource (hi.trans (List.IsSuffix.isInfix ⟨x ++ [c], ?_⟩))
        rw [List.append_assoc, List.singleton_append, ← hu, ← hx]
      · exact absurd hi (by decide)
    have hcut := cut_of_not_infix harrow (' ' :: stripRight target)
    have htail : u ++ [' ', '-', '>', ' '] ++ stripRight target =
        u ++ [' '] ++ ['-', '>'] ++ ' ' :: stripRight target := by simp
    rw [renameSides?, hstrip, hu, List.cons_append, List.cons_append]
    simp only [htail, hcut]
    simp
  · rw [canonicalPath_congr ((strip_append_right _ (by decide)).trans (strip_stripLeft source)),
      hs.canonical]
  · have hleft : strip (' ' :: stripRight target) = strip (stripRight target) :=
      strip_append_left (x := [' ']) (by decide) _
    rw [canonicalPath_congr (hleft.trans (strip_stripRight target)), ht.canonical]

/-- The body of an edit is read as its two texts. -/
theorem fileOperation?_edit {path search replacement : Text} (hs : IsPlainText search)
    (hmark : ¬ replaceMark <:+: search) (hr : IsPlainText replacement) :
    fileOperation? path (bodyOf (.edit path search replacement)) =
      some (.edit path search replacement) := by
  have hbody : stripLeft (bodyOf (.edit path search replacement)) =
      searchMark ++ ('\n' :: search ++ ['\n'] ++ replaceMark ++ ('\n' :: replacement ++ ['\n'])) := by
    have hleft : bodyOf (.edit path search replacement) = ['\n'] ++ (searchMark ++
        ('\n' :: search ++ ['\n'] ++ replaceMark ++ ('\n' :: replacement ++ ['\n']))) := by
      simp [bodyOf, partsOf]
    rw [hleft, stripLeft_append_left (by decide), stripLeft_append_of_ne_nil (by decide)]
    rfl
  have hcut : cut replaceMark ('\n' :: search ++ ['\n'] ++ replaceMark ++
      ('\n' :: replacement ++ ['\n'])) =
        some ('\n' :: search ++ ['\n'], '\n' :: replacement ++ ['\n']) := by
    refine cut_of_not_infix ?_ _
    have hlast : ¬ replaceMark <:+: replaceMark.dropLast := by decide
    have hlines := not_infix_lines (by decide) (List.forall_mem_singleton.2 hmark) hlast []
      (by decide)
    simpa using hlines
  rw [fileOperation?, hbody]
  simp only [startsWith_append, if_true, List.drop_left, hcut, Option.map_some, strip_body,
    hs.stripped, hr.stripped]

/-- A body without marks is read as the whole contents. -/
theorem fileOperation?_overwrite {path content : Text} (hc : IsPlainText content)
    (hsearch : ¬ searchMark <:+: content) (hreplace : ¬ replaceMark <:+: content) :
    fileOperation? path (bodyOf (.overwrite path content)) = some (.overwrite path content) := by
  have hlines {mark : Text} (hm : '\n' ∉ mark) (h0 : ¬ mark <:+: []) (h : ¬ mark <:+: content) :
      ¬ mark <:+: bodyOf (.overwrite path content) :=
    not_infix_lines hm (List.forall_mem_singleton.2 h) h0 [] h0
  have hs := hlines (by decide) (by decide) hsearch
  have hr := hlines (by decide) (by decide) hreplace
  have hopened : ¬ startsWith searchMark (stripLeft (bodyOf (.overwrite path content))) := by
    intro h
    obtain ⟨x, -, hx⟩ := exists_eq_append_stripLeft (bodyOf (.overwrite path content))
    exact hs ((startsWith_iff.1 h).isInfix.trans (List.IsSuffix.isInfix ⟨x, hx.symm⟩))
  have hcontent : strip (bodyOf (.overwrite path content)) = content := by
    simpa [bodyOf, partsOf, hc.stripped] using strip_body content
  rw [fileOperation?, if_neg hopened, if_neg, hcontent]
  simpa [← has_iff] using And.intro hs hr

/-- **The block of an operation is read as the operation.** -/
theorem blockOperation?_body {op : Operation Text} (h : Writable op) :
    blockOperation? (headerOf op).marker (headerOf op).argument (bodyOf op) = some op := by
  have hread : readBlock? (headerOf op).marker (headerOf op).argument (bodyOf op) = some op := by
    cases op with
    | create file content =>
      have hcontent : strip (bodyOf (.create file content)) = content := by
        simpa [bodyOf, partsOf, h.2.stripped] using strip_body content
      simp only [headerOf, readBlock?, canonicalPath_argument h.1, hcontent]
    | delete file => simp only [headerOf, readBlock?, canonicalPath_argument h]
    | rename source target =>
      obtain ⟨s, t, hsides, hs, ht⟩ := renameSides?_argument h.1 h.2.1 h.2.2
      change (renameSides? _).map _ = _
      rw [hsides, Option.map_some]
      simp only [hs, ht]
    | edit file search replacement =>
      obtain ⟨hf, hs, -, hmark, hr⟩ := h
      simp only [headerOf, readBlock?, canonicalPath_argument hf, fileOperation?_edit hs hmark hr]
    | overwrite file content =>
      obtain ⟨hf, hc, hsearch, hreplace⟩ := h
      simp only [headerOf, readBlock?, canonicalPath_argument hf,
        fileOperation?_overwrite hc hsearch hreplace]
  have hfilled : op.lacking? List.isEmpty = none := by
    cases op with
    | create file content => simp [Operation.lacking?, Operation.required, h.1.ne_nil]
    | delete file => simp [Operation.lacking?, Operation.required, IsPlainPath.ne_nil h]
    | rename source target =>
      simp [Operation.lacking?, Operation.required, h.1.ne_nil, h.2.2.ne_nil]
    | edit file search replacement =>
      simp [Operation.lacking?, Operation.required, h.1.ne_nil, h.2.2.1]
    | overwrite file content => simp [Operation.lacking?, Operation.required, h.1.ne_nil]
  rw [blockOperation?, hread]
  simp [hfilled]

/-! ## Whole replies -/

theorem findingsFrom_of_none {t : Text} (e : findHeader t = none) (offset : Nat) :
    findingsFrom offset t = [] := by
  rw [findingsFrom]
  split
  · rfl
  · simp_all

/-- A header with a body up to the next end mark is a finding, and the scan goes on behind it. -/
theorem findingsFrom_of_block {t before rest body after : Text} {h : Header}
    (e : findHeader t = some (before, h, rest)) (hc : cut endMark rest = some (body, after))
    (hb : findHeader body = none) (offset : Nat) :
    findingsFrom offset t = blockFinding h (offset + before.length) body ::
      findingsFrom (offset + before.length + h.written.length + body.length + endMark.length)
        after := by
  rw [findingsFrom]
  split
  · simp_all
  · rename_i e'
    obtain ⟨rfl, rfl, rfl⟩ := by simpa using e.symm.trans e'
    split
    · simp_all
    · rename_i hc'
      obtain ⟨rfl, rfl⟩ := by simpa using hc.symm.trans hc'
      rw [hb]

theorem cons_render (c : Char) (prose : Text) (items : List (Operation Text × Text)) :
    c :: render prose items = render (c :: prose) items := by
  cases items with
  | nil => rfl
  | cons x items => simp [render]

/-- The scan finds each block where it was put. -/
theorem findingsFrom_render {items : List (Operation Text × Text)}
    (hi : ∀ x ∈ items, Writable x.1 ∧ Headerless x.2) {prose : Text} (hp : findHeader prose = none)
    (offset : Nat) :
    findingsFrom offset (render prose items) = items.map fun x => .operation x.1 := by
  induction items generalizing prose offset with
  | nil => exact findingsFrom_of_none hp offset
  | cons x items ih =>
    obtain ⟨op, next⟩ := x
    obtain ⟨hop, hnext⟩ := hi (op, next) List.mem_cons_self
    have htext : render prose ((op, next) :: items) = prose ++ '\n' :: ((headerOf op).written ++
        (bodyOf op ++ endMark ++ render ('\n' :: next) items)) := by
      rw [render, block_eq, ← cons_render]
      simp
    have hheader := findHeader_line hp (isProper_headerOf hop)
      (bodyOf op ++ endMark ++ render ('\n' :: next) items)
    rw [← htext] at hheader
    have hblock := findingsFrom_of_block hheader (cut_endMark_body hop _) (findHeader_body hop)
      offset
    have hnext' : findHeader ('\n' :: next) = none :=
      findHeader_append_line (u := []) rfl (headerless_iff.1 hnext)
    have hlater : ∀ x ∈ items, Writable x.1 ∧ Headerless x.2 :=
      fun x hx => hi x (List.mem_cons_of_mem _ hx)
    rw [hblock, ih hlater hnext', blockFinding, blockOperation?_body hop]
    rfl

/-- **What is written as blocks is read again.** Operations that can be written, each put as a block
between pieces of prose without headers, are what the reply asks for, and nothing is noted. -/
theorem operations_render {prose : Text} {items : List (Operation Text × Text)}
    (hp : Headerless prose) (hi : ∀ x ∈ items, Writable x.1 ∧ Headerless x.2)
    (hw : ¬ IsWrapped (render prose items)) :
    operations (render prose items) = items.map Prod.fst ∧ notes (render prose items) = [] := by
  have hf : findings (render prose items) = items.map fun x => .operation x.1 := by
    rw [findings, payload_of_not_isWrapped hw]
    exact findingsFrom_render hi (headerless_iff.1 hp) 0
  constructor
  · rw [operations, hf, List.filterMap_map]
    rw [← List.filterMap_eq_map']
    rfl
  · rw [notes, hf, List.filterMap_map]
    exact List.filterMap_eq_nil_iff.2 fun x _ => rfl

/-- Operations of every kind, between pieces of prose with marks in them. -/
def sampleItems : List (Operation Text × Text) :=
  [(.create "a/b.py" "x = 1\n  <<<SEARCH>>>", "and <<<END>>> then"), (.delete "c", ""),
    (.rename "d e" "f->g", "->"), (.edit "h" "<<<CREATE: x" "", "<<<REPLACE>>>"),
    (.overwrite "i" "> >>>", "")]

/-- All of them are read again. -/
theorem operations_render_sampleItems :
    operations (render "Here:" sampleItems) = sampleItems.map Prod.fst := by
  have hpath {p : Text} (h : p ≠ [] ∧ canonicalPath p = p ∧ '\n' ∉ p ∧ cut closing p = none ∧
      p.getLast? ≠ some '>') : IsPlainPath p :=
    ⟨h.1, h.2.1, h.2.2.1, cut_eq_none_iff.1 h.2.2.2.1, h.2.2.2.2⟩
  have htext {t : Text} (h : strip t = t ∧ cut endMark t = none ∧ findHeader t = none) :
      IsPlainText t := ⟨h.1, cut_eq_none_iff.1 h.2.1, headerless_iff.2 h.2.2⟩
  refine (operations_render (headerless_iff.2 (by decide)) ?_ (not_isWrapped_of_occurrences ?_)).1
  · intro x hx
    simp only [sampleItems, List.mem_cons, List.not_mem_nil, or_false] at hx
    rcases hx with rfl | rfl | rfl | rfl | rfl
    · exact ⟨⟨hpath (by decide), htext (by decide)⟩, headerless_iff.2 (by decide)⟩
    · exact ⟨hpath (by decide), headerless_iff.2 (by decide)⟩
    · exact ⟨⟨hpath (by decide), cut_eq_none_iff.1 (by decide), hpath (by decide)⟩,
        headerless_iff.2 (by decide)⟩
    · exact ⟨⟨hpath (by decide), htext (by decide), by decide, cut_eq_none_iff.1 (by decide),
        htext (by decide)⟩, headerless_iff.2 (by decide)⟩
    · exact ⟨⟨hpath (by decide), htext (by decide), cut_eq_none_iff.1 (by decide),
        cut_eq_none_iff.1 (by decide)⟩, headerless_iff.2 (by decide)⟩
  · have hcut : cut fence (render "Here:" sampleItems) = none := by decide +kernel
    rw [occurrences, pieces, dif_neg (by decide)]
    split
    · decide
    · simp_all

end ReplyLedger.Reply
