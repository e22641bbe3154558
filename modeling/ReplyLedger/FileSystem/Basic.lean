import ReplyLedger.Text.Utf8

/-!
# File systems

A file system is a finite tree of directories, regular files and symbolic links. It is kept as the
list of its entries by location, in no particular order, with the root left out; that the entries
form a tree with proper names (`IsTree`) is part of the type. `entryAt` is the view: what stands at a
location.

The changes are those that a tree allows: `put` sets a file, a link or a new directory, `erase`
takes one entry that is no directory away, `removeTree` takes a location with all below it, and
`move` gives an entry, with all below it, another location. A change that would not leave a tree is
not made. `entryAt_put`, `entryAt_erase`, `entryAt_removeTree`, `entryAt_move_append` and
`entryAt_move` say what each does to the view.
-/

namespace ReplyLedger

/-- The place of an entry: the names on the way to it from the root. -/
abbrev Location := List Text

namespace FileSystem

/-- The greatest number of bytes of a name. -/
def maxNameLength : Nat := 255

/-- Whether a name is longer than names can be. -/
def isTooLong (name : Text) : Bool := maxNameLength < (Utf8.encode name).length

/-- Whether a name holds a NUL character. -/
def hasNul (s : Text) : Bool := s.contains '\x00'

/-- Whether a segment of a path stands for an entry of its own: it is no dots, and holds neither a
slash nor a NUL character. -/
def isPlain (s : Text) : Bool :=
  s ≠ [] && s ≠ ['.'] && s ≠ ['.', '.'] && !s.contains '/' && !hasNul s

/-- Whether a text can be the name of an entry. -/
def isName (s : Text) : Bool := isPlain s && !isTooLong s

end FileSystem

/-- What stands at a location. -/
inductive Entry
  | directory
  | file (bytes : Bytes)
  | link (target : Text)
  deriving DecidableEq, Repr

/-- The entries of a tree: no location is repeated, the root is left out, every entry stands in a
directory, and locations are made of names. -/
structure IsTree (entries : List (Location × Entry)) : Prop where
  nodup : (entries.map Prod.fst).Nodup
  ne_root : ∀ x ∈ entries, x.1 ≠ []
  parent_mem : ∀ x ∈ entries, x.1.dropLast = [] ∨ (x.1.dropLast, Entry.directory) ∈ entries
  isName : ∀ x ∈ entries, ∀ s ∈ x.1, FileSystem.isName s

/-- A finite tree of entries. -/
structure FileSystem where
  entries : List (Location × Entry)
  isTree : IsTree entries

namespace FileSystem

/-- The file system with nothing in it. -/
def empty : FileSystem := ⟨[], by simp, by simp, by simp, by simp⟩

instance : Inhabited FileSystem := ⟨empty⟩

/-- What stands at a location, if anything does. The root is a directory. -/
def entryAt (fs : FileSystem) (p : Location) : Option Entry :=
  if p = [] then some .directory else fs.entries.lookup p

/-- Whether there is a directory at a location. -/
def IsDirectory (fs : FileSystem) (p : Location) : Prop := fs.entryAt p = some .directory

instance (fs : FileSystem) (p : Location) : Decidable (fs.IsDirectory p) :=
  inferInstanceAs (Decidable (_ = _))

theorem lookup_eq_some_iff {l : List (Location × Entry)} (h : (l.map Prod.fst).Nodup)
    {p : Location} {e : Entry} : l.lookup p = some e ↔ (p, e) ∈ l := by
  induction l with
  | nil => simp
  | cons x l ih =>
    obtain ⟨q, d⟩ := x
    simp only [List.map_cons, List.nodup_cons] at h
    rw [List.lookup_cons, List.mem_cons]
    by_cases hq : p = q
    · subst hq
      have hn : (p, e) ∉ l := fun hm => h.1 (List.mem_map_of_mem (f := Prod.fst) hm)
      simp [hn, eq_comm]
    · have hq' : (p == q) = false := by simpa using hq
      simp [hq, hq', ih h.2]

/-- Below the root, what stands at a location is what the list of entries says. -/
theorem entryAt_eq_some_iff {fs : FileSystem} {p : Location} {e : Entry} (hp : p ≠ []) :
    fs.entryAt p = some e ↔ (p, e) ∈ fs.entries := by
  rw [entryAt, if_neg hp, lookup_eq_some_iff fs.isTree.nodup]

theorem entryAt_of_mem {fs : FileSystem} {x : Location × Entry} (h : x ∈ fs.entries) :
    fs.entryAt x.1 = some x.2 := (entryAt_eq_some_iff (fs.isTree.ne_root x h)).2 h

theorem entryAt_nil (fs : FileSystem) : fs.entryAt [] = some .directory := rfl

/-- Two file systems show the same below the root if their lists hold the same there. -/
theorem entryAt_congr {fs gs : FileSystem} {p q : Location} (hp : p ≠ []) (hq : q ≠ [])
    (h : ∀ e, (p, e) ∈ fs.entries ↔ (q, e) ∈ gs.entries) : fs.entryAt p = gs.entryAt q := by
  refine Option.ext fun e => ?_
  rw [entryAt_eq_some_iff hp, entryAt_eq_some_iff hq, h]

theorem entryAt_eq_none {fs : FileSystem} {p : Location} (hp : p ≠ [])
    (h : ∀ e, (p, e) ∉ fs.entries) : fs.entryAt p = none := by
  rw [Option.eq_none_iff_forall_not_mem]
  exact fun e he => h e ((entryAt_eq_some_iff hp).1 he)

theorem isDirectory_nil (fs : FileSystem) : fs.IsDirectory [] := rfl

/-- The location of a directory is made of names. -/
theorem isName_of_isDirectory {fs : FileSystem} {p : Location} (h : fs.IsDirectory p) {s : Text}
    (hs : s ∈ p) : isName s := by
  by_cases h0 : p = []
  · simp [h0] at hs
  · exact fs.isTree.isName _ ((entryAt_eq_some_iff h0).1 h) s hs

/-- Every entry stands in a directory. -/
theorem isDirectory_dropLast_of_mem {fs : FileSystem} {x : Location × Entry}
    (h : x ∈ fs.entries) : fs.IsDirectory x.1.dropLast := by
  rcases fs.isTree.parent_mem x h with h | h
  · rw [h]; exact fs.isDirectory_nil
  · exact entryAt_of_mem h

/-- What an entry stands below is a directory. -/
theorem isDirectory_of_mem_append {fs : FileSystem} {p q : Location} {e : Entry} (hq : q ≠ [])
    (h : (p ++ q, e) ∈ fs.entries) : fs.IsDirectory p := by
  obtain ⟨r, n, rfl⟩ := (List.eq_nil_or_concat q).resolve_left hq
  have hd := isDirectory_dropLast_of_mem h
  rw [List.concat_eq_append, ← List.append_assoc, List.dropLast_concat] at hd
  by_cases hr : r = []
  · simpa [hr] using hd
  · exact isDirectory_of_mem_append hr ((entryAt_eq_some_iff (by simp [hr])).1 hd)
termination_by q.length
decreasing_by subst_vars; simp

/-- Where nothing stands, or no directory does, nothing stands below. -/
theorem entryAt_append_eq_none {fs : FileSystem} {p q : Location} (hp : ¬ fs.IsDirectory p)
    (hq : q ≠ []) : fs.entryAt (p ++ q) = none :=
  entryAt_eq_none (by simp [hq]) fun _ h => hp (isDirectory_of_mem_append hq h)

/-! ## Setting an entry -/

/-- Whether an entry can be set at a location: it is in a directory under a proper name, and there is
no directory at it. -/
structure Accepts (fs : FileSystem) (p : Location) : Prop where
  ne_nil : p ≠ []
  parent : fs.IsDirectory p.dropLast
  free : ¬ fs.IsDirectory p
  isName_getLast : isName (p.getLast ne_nil)

instance (fs : FileSystem) (p : Location) : Decidable (fs.Accepts p) :=
  decidable_of_iff
    (∃ h : p ≠ [], fs.IsDirectory p.dropLast ∧ ¬ fs.IsDirectory p ∧ isName (p.getLast h))
    ⟨fun ⟨h, hp, hf, hn⟩ => ⟨h, hp, hf, hn⟩, fun h => ⟨h.ne_nil, h.parent, h.free, h.isName_getLast⟩⟩

/-- A location at which an entry can be set is made of names. -/
theorem Accepts.isName {fs : FileSystem} {p : Location} (h : fs.Accepts p) {s : Text}
    (hs : s ∈ p) : isName s := by
  rw [← List.dropLast_concat_getLast h.ne_nil, List.mem_append, List.mem_singleton] at hs
  rcases hs with hs | rfl
  · exact isName_of_isDirectory h.parent hs
  · exact h.isName_getLast

/-- The entries without the one at a location, and with a new one there. -/
def entriesWith (fs : FileSystem) (p : Location) (e : Entry) : List (Location × Entry) :=
  fs.entries.filter (fun x => x.1 ≠ p) ++ [(p, e)]

theorem mem_entriesWith {fs : FileSystem} {p : Location} {e : Entry} {x : Location × Entry} :
    x ∈ fs.entriesWith p e ↔ (x ∈ fs.entries ∧ x.1 ≠ p) ∨ x = (p, e) := by
  simp [entriesWith]

theorem isTree_entriesWith {fs : FileSystem} {p : Location} {e : Entry} (h : fs.Accepts p) :
    IsTree (fs.entriesWith p e) := by
  have keep {q : Location} (hq : fs.IsDirectory q) :
      q = [] ∨ (q, Entry.directory) ∈ fs.entriesWith p e := by
    by_cases h0 : q = []
    · exact .inl h0
    · refine .inr (mem_entriesWith.2 (.inl ⟨(entryAt_eq_some_iff h0).1 hq, ?_⟩))
      rintro rfl
      exact h.free hq
  refine ⟨?_, ?_, ?_, ?_⟩
  · rw [entriesWith, List.map_append, List.nodup_append]
    refine ⟨(List.filter_sublist.map _).nodup fs.isTree.nodup, by simp, ?_⟩
    intro a ha b hb
    obtain ⟨x, hx, rfl⟩ := List.mem_map.1 ha
    simp only [List.map_cons, List.map_nil, List.mem_singleton] at hb
    simpa [hb] using (List.mem_filter.1 hx).2
  · intro x hx
    rcases mem_entriesWith.1 hx with ⟨hx, -⟩ | rfl
    · exact fs.isTree.ne_root x hx
    · exact h.ne_nil
  · intro x hx
    rcases mem_entriesWith.1 hx with ⟨hx, -⟩ | rfl
    · exact keep (isDirectory_dropLast_of_mem hx)
    · exact keep h.parent
  · intro x hx s hs
    rcases mem_entriesWith.1 hx with ⟨hx, -⟩ | rfl
    · exact fs.isTree.isName x hx s hs
    · exact h.isName hs

/-- The file system with `e` at a location: a file or a link that takes the place of another, or any
new entry. Directories are never replaced. -/
def put (fs : FileSystem) (p : Location) (e : Entry) : FileSystem :=
  if h : fs.Accepts p then ⟨fs.entriesWith p e, isTree_entriesWith h⟩ else fs

/-- Setting an entry changes what stands at its location, and nothing else. -/
theorem entryAt_put {fs : FileSystem} {p : Location} (h : fs.Accepts p) (e : Entry)
    (q : Location) : (fs.put p e).entryAt q = if q = p then some e else fs.entryAt q := by
  rw [put, dif_pos h]
  split
  · rename_i hq
    subst hq
    exact (entryAt_eq_some_iff h.ne_nil).2 (mem_entriesWith.2 (.inr rfl))
  · rename_i hq
    by_cases h0 : q = []
    · simp only [h0, entryAt_nil]
    · exact entryAt_congr h0 h0 fun e => by simp [mem_entriesWith, hq]

/-! ## Removing entries -/

/-- The entries without the one at a location. -/
def entriesWithout (fs : FileSystem) (p : Location) : List (Location × Entry) :=
  fs.entries.filter fun x => x.1 ≠ p

theorem isTree_entriesWithout {fs : FileSystem} {p : Location} (h : ¬ fs.IsDirectory p) :
    IsTree (fs.entriesWithout p) := by
  refine ⟨(List.filter_sublist.map _).nodup fs.isTree.nodup, ?_, ?_, ?_⟩
  · exact fun x hx => fs.isTree.ne_root x (List.mem_filter.1 hx).1
  · intro x hx
    by_cases h0 : x.1.dropLast = []
    · exact .inl h0
    · have hd := isDirectory_dropLast_of_mem (List.mem_filter.1 hx).1
      refine .inr (List.mem_filter.2 ⟨(entryAt_eq_some_iff h0).1 hd, ?_⟩)
      simp only [ne_eq, decide_eq_true_eq]
      intro he
      exact h (he ▸ hd)
  · exact fun x hx => fs.isTree.isName x (List.mem_filter.1 hx).1

/-- The file system without the entry at a location, if that is no directory. -/
def erase (fs : FileSystem) (p : Location) : FileSystem :=
  if h : ¬ fs.IsDirectory p then ⟨fs.entriesWithout p, isTree_entriesWithout h⟩ else fs

/-- Erasing an entry changes what stands at its location, and nothing else. -/
theorem entryAt_erase {fs : FileSystem} {p : Location} (h : ¬ fs.IsDirectory p) (q : Location) :
    (fs.erase p).entryAt q = if q = p then none else fs.entryAt q := by
  have hp : p ≠ [] := by
    rintro rfl
    exact h fs.isDirectory_nil
  rw [erase, dif_pos h]
  split
  · rename_i hq
    subst hq
    exact entryAt_eq_none hp fun e => by simp [entriesWithout]
  · rename_i hq
    by_cases h0 : q = []
    · simp only [h0, entryAt_nil]
    · exact entryAt_congr h0 h0 fun e => by simp [entriesWithout, hq]

/-- The entries that are neither at a location nor below it. -/
def entriesOutside (fs : FileSystem) (p : Location) : List (Location × Entry) :=
  fs.entries.filter fun x => !p.isPrefixOf x.1

theorem isTree_entriesOutside (fs : FileSystem) (p : Location) :
    IsTree (fs.entriesOutside p) := by
  refine ⟨(List.filter_sublist.map _).nodup fs.isTree.nodup, ?_, ?_, ?_⟩
  · exact fun x hx => fs.isTree.ne_root x (List.mem_filter.1 hx).1
  · intro x hx
    obtain ⟨hm, hx⟩ := List.mem_filter.1 hx
    rcases fs.isTree.parent_mem x hm with h | h
    · exact .inl h
    · refine .inr (List.mem_filter.2 ⟨h, ?_⟩)
      simp only [Bool.not_eq_true', ← Bool.not_eq_true, List.isPrefixOf_iff_prefix] at hx ⊢
      exact fun hp => hx (hp.trans (List.dropLast_prefix x.1))
  · exact fun x hx => fs.isTree.isName x (List.mem_filter.1 hx).1

/-- The file system without a location and all below it. -/
def removeTree (fs : FileSystem) (p : Location) : FileSystem :=
  ⟨fs.entriesOutside p, fs.isTree_entriesOutside p⟩

/-- Removing a tree takes away what is at its location and below, and nothing else. -/
theorem entryAt_removeTree (fs : FileSystem) {p : Location} (hp : p ≠ []) (q : Location) :
    (fs.removeTree p).entryAt q = if p <+: q then none else fs.entryAt q := by
  split
  · rename_i h
    have hq : q ≠ [] := by
      rintro rfl
      exact hp (List.prefix_nil.1 h)
    exact entryAt_eq_none hq fun e => by
      simp [removeTree, entriesOutside, List.isPrefixOf_iff_prefix, h]
  · rename_i h
    by_cases h0 : q = []
    · simp only [h0, entryAt_nil]
    · refine entryAt_congr h0 h0 fun e => ?_
      simp [removeTree, entriesOutside, ← Bool.not_eq_true, List.isPrefixOf_iff_prefix, h]

/-! ## Moving -/

/-- Where a location is after the entry at `src` has been moved to `dst`. -/
def relocate (src dst p : Location) : Location :=
  if src.isPrefixOf p then dst ++ p.drop src.length else p

theorem relocate_append (src dst q : Location) : relocate src dst (src ++ q) = dst ++ q := by
  simp [relocate, List.isPrefixOf_iff_prefix]

theorem relocate_of_not_below {src dst p : Location} (h : ¬ src <+: p) :
    relocate src dst p = p := by
  simp [relocate, List.isPrefixOf_iff_prefix, h]

/-- Whether the entry at `src` can be moved to `dst`: an entry can be set there, and it is not below
`src`. -/
def CanMove (fs : FileSystem) (src dst : Location) : Prop :=
  src ≠ [] ∧ fs.Accepts dst ∧ ¬ src <+: dst

instance (fs : FileSystem) (src dst : Location) : Decidable (fs.CanMove src dst) :=
  inferInstanceAs (Decidable (_ ∧ _ ∧ _))

/-- The entries after the one at `src` has been moved to `dst`, with all below it. -/
def entriesMoved (fs : FileSystem) (src dst : Location) : List (Location × Entry) :=
  (fs.entriesWithout dst).map fun x => (relocate src dst x.1, x.2)

theorem mem_entriesMoved {fs : FileSystem} {src dst : Location} {x : Location × Entry} :
    x ∈ fs.entriesMoved src dst ↔
      ∃ p, p ≠ dst ∧ (p, x.2) ∈ fs.entries ∧ relocate src dst p = x.1 := by
  obtain ⟨q, e⟩ := x
  simp [entriesMoved, entriesWithout, and_assoc, and_left_comm]

/-- Where an entry can be set, no other entry is at the location or below it. -/
theorem Accepts.not_mem {fs : FileSystem} {p : Location} (h : fs.Accepts p) {q r : Location}
    {e : Entry} (hm : (q, e) ∈ fs.entries) (hq : q ≠ p) : q ≠ p ++ r := by
  rintro rfl
  by_cases hr : r = []
  · exact hq (by simp [hr])
  · exact h.free (isDirectory_of_mem_append hr hm)

/-- Different locations stay different when an entry is moved. -/
theorem relocate_injOn {fs : FileSystem} {src dst : Location} (h : fs.CanMove src dst)
    {p q : Location} {d e : Entry} (hp : (p, d) ∈ fs.entries) (hq : (q, e) ∈ fs.entries)
    (hpd : p ≠ dst) (hqd : q ≠ dst) (he : relocate src dst p = relocate src dst q) : p = q := by
  by_cases h1 : src <+: p <;> by_cases h2 : src <+: q
  · obtain ⟨a, rfl⟩ := h1
    obtain ⟨b, rfl⟩ := h2
    rw [relocate_append, relocate_append] at he
    rw [List.append_cancel_left he]
  · obtain ⟨a, rfl⟩ := h1
    rw [relocate_append, relocate_of_not_below h2] at he
    exact absurd he.symm (h.2.1.not_mem hq hqd)
  · obtain ⟨b, rfl⟩ := h2
    rw [relocate_append, relocate_of_not_below h1] at he
    exact absurd he (h.2.1.not_mem hp hpd)
  · rwa [relocate_of_not_below h1, relocate_of_not_below h2] at he

theorem isTree_entriesMoved {fs : FileSystem} {src dst : Location} (h : fs.CanMove src dst) :
    IsTree (fs.entriesMoved src dst) := by
  obtain ⟨hs, ha, hsd⟩ := h
  have keep {q : Location} (hq : fs.IsDirectory q) (h0 : q ≠ []) :
      (relocate src dst q, Entry.directory) ∈ fs.entriesMoved src dst := by
    refine mem_entriesMoved.2 ⟨q, ?_, (entryAt_eq_some_iff h0).1 hq, rfl⟩
    rintro rfl
    exact ha.free hq
  have stay {q : Location} (hq : fs.IsDirectory q) (hsq : ¬ src <+: q) :
      q = [] ∨ (q, Entry.directory) ∈ fs.entriesMoved src dst := by
    by_cases h0 : q = []
    · exact .inl h0
    · exact .inr (by simpa [relocate_of_not_below hsq] using keep hq h0)
  refine ⟨?_, ?_, ?_, ?_⟩
  · have hn := (isTree_entriesWithout ha.free).nodup
    rw [entriesMoved, List.map_map, List.Nodup, List.pairwise_map]
    rw [List.Nodup, List.pairwise_map] at hn
    refine hn.imp_of_mem fun {x y} hx hy hne he => hne ?_
    obtain ⟨hx, hxd⟩ := List.mem_filter.1 hx
    obtain ⟨hy, hyd⟩ := List.mem_filter.1 hy
    simp only [ne_eq, decide_eq_true_eq] at hxd hyd
    exact relocate_injOn ⟨hs, ha, hsd⟩ hx hy hxd hyd he
  · intro x hx
    obtain ⟨p, -, hm, he⟩ := mem_entriesMoved.1 hx
    have hp := fs.isTree.ne_root _ hm
    rw [← he, relocate]
    split
    · simp [ha.ne_nil]
    · exact hp
  · intro x hx
    obtain ⟨p, -, hm, he⟩ := mem_entriesMoved.1 hx
    have hpar := isDirectory_dropLast_of_mem hm
    rw [← he]
    by_cases hsp : src <+: p
    · obtain ⟨r, rfl⟩ := hsp
      rw [relocate_append]
      by_cases hr : r = []
      · rw [hr, List.append_nil]
        exact stay ha.parent fun hc => hsd (hc.trans (List.dropLast_prefix dst))
      · simp only [List.dropLast_append_of_ne_nil hr] at hpar ⊢
        have := keep hpar (by simp [hs])
        rw [relocate_append] at this
        exact .inr this
    · rw [relocate_of_not_below hsp]
      exact stay hpar fun hc => hsp (hc.trans (List.dropLast_prefix p))
  · intro x hx s hs
    obtain ⟨p, -, hm, he⟩ := mem_entriesMoved.1 hx
    have hp := fs.isTree.isName _ hm
    rw [← he, relocate] at hs
    split at hs
    · rcases List.mem_append.1 hs with hs | hs
      · exact ha.isName hs
      · exact hp s (List.mem_of_mem_drop hs)
    · exact hp s hs

/-- The file system with the entry at `src`, and all below it, at `dst` instead. A file or a link at
`dst` is replaced; nothing is moved below itself. -/
def move (fs : FileSystem) (src dst : Location) : FileSystem :=
  if h : fs.CanMove src dst then ⟨fs.entriesMoved src dst, isTree_entriesMoved h⟩ else fs

/-- What was at `src` and below it is at `dst` and below it after a move. -/
theorem entryAt_move_append {fs : FileSystem} {src dst : Location} (h : fs.CanMove src dst)
    (r : Location) : (fs.move src dst).entryAt (dst ++ r) = fs.entryAt (src ++ r) := by
  have hd : dst ++ r ≠ [] := by simp [h.2.1.ne_nil]
  have hs : src ++ r ≠ [] := by simp [h.1]
  rw [move, dif_pos h]
  refine entryAt_congr hd hs fun e => ?_
  rw [mem_entriesMoved]
  constructor
  · rintro ⟨p, hp, hm, he⟩
    by_cases hsp : src <+: p
    · obtain ⟨t, rfl⟩ := hsp
      rw [relocate_append] at he
      rwa [← List.append_cancel_left he]
    · rw [relocate_of_not_below hsp] at he
      exact absurd he (h.2.1.not_mem hm hp)
  · intro hm
    refine ⟨src ++ r, ?_, hm, relocate_append src dst r⟩
    intro he
    exact h.2.2 (he ▸ List.prefix_append src r)

/-- A move leaves nothing at `src` and below it, and changes nothing that is not below `src` or
`dst`. -/
theorem entryAt_move {fs : FileSystem} {src dst : Location} (h : fs.CanMove src dst)
    {q : Location} (hq : ¬ dst <+: q) :
    (fs.move src dst).entryAt q = if src <+: q then none else fs.entryAt q := by
  rw [move, dif_pos h]
  have hne {p : Location} (hr : relocate src dst p = q) : ¬ src <+: p := by
    rintro ⟨t, rfl⟩
    rw [relocate_append] at hr
    exact hq (hr ▸ List.prefix_append dst t)
  split
  · rename_i hs
    have h0 : q ≠ [] := by
      rintro rfl
      exact h.1 (List.prefix_nil.1 hs)
    refine entryAt_eq_none h0 fun e hm => ?_
    obtain ⟨p, -, -, hr⟩ := mem_entriesMoved.1 hm
    have hsp := hne hr
    rw [relocate_of_not_below hsp] at hr
    exact hsp (hr ▸ hs)
  · rename_i hs
    by_cases h0 : q = []
    · simp only [h0, entryAt_nil]
    · refine entryAt_congr h0 h0 fun e => ?_
      rw [mem_entriesMoved]
      constructor
      · rintro ⟨p, -, hm, hr⟩
        rw [relocate_of_not_below (hne hr)] at hr
        subst hr
        exact hm
      · intro hm
        refine ⟨q, ?_, hm, relocate_of_not_below hs⟩
        rintro rfl
        exact hq (List.prefix_refl q)

/-- The names of the entries of a directory. -/
def namesIn (fs : FileSystem) (p : Location) : List Text :=
  fs.entries.filterMap fun x => if x.1.dropLast = p then x.1.getLast? else none

end FileSystem

end ReplyLedger
