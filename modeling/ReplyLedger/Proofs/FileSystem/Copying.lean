import ReplyLedger.FileSystem.Copy
import ReplyLedger.Proofs.FileSystem.Ancestors
import ReplyLedger.Proofs.Text.Utf8

/-!
# What a copy makes, and how it ends

A copy changes nothing but at its place and below it, so a copy to a vacant place loses nothing
(`staysBelow_copyTree`).

Every level lengthens the path of the target. So as soon as as many levels can be entered as paths
are long, a copy is not too deep (`copyTree_ne_tooDeep`). A copy that would come upon itself
(`Burrows`) never ends well, however many levels there are (`copyTree_ne_done`): at each level the
next one has the same shape.
-/

namespace ReplyLedger.FileSystem

variable {copy : Place → Place → FileSystem → CopyEnd × FileSystem} {src dst : Place}
variable {fs : FileSystem} {p q : Location} {name : Text} {names : List Text}
variable {faults : List CopyFault} {depth : Nat}

/-! ## What a copy changes -/

/-- Copying changes nothing but at the place of the copy and below it. -/
def StaysBelow (copy : Place → Place → FileSystem → CopyEnd × FileSystem) : Prop :=
  ∀ src dst fs q, ¬ dst.location <+: q → (copy src dst fs).2.entryAt q = fs.entryAt q

theorem staysBelow_copyEntry (hcopy : StaysBelow copy) : StaysBelow (copyEntry copy) := by
  intro src dst fs q hq
  have hput (e : Entry) : (fs.put dst.location e).entryAt q = fs.entryAt q := by
    refine entryAt_put_of_ne e ?_
    rintro rfl
    exact hq (List.prefix_refl _)
  have htree := hcopy src dst fs q hq
  rw [copyEntry]
  dsimp only
  split
  · split
    · rfl
    · split
      · rename_i hc
        rwa [hc] at htree
      · exact htree
  · split
    · rfl
    · split
      · rfl
      · exact hput _
  · split
    · rfl
    · split
      · rfl
      · exact hput _
  · rfl

/-- Entries are copied to the places of their names. -/
theorem entryAt_copyEntries (hcopy : StaysBelow copy)
    (hq : ∀ name ∈ names, ¬ dst.location ++ [name] <+: q) :
    (copyEntries copy src dst faults names fs).2.entryAt q = fs.entryAt q := by
  induction names generalizing faults fs with
  | nil => rfl
  | cons name names ih =>
    have hentry := staysBelow_copyEntry hcopy (src.child name) (dst.child name) fs q
      (hq name List.mem_cons_self)
    have hrest (faults : List CopyFault) (gs : FileSystem) (hgs : gs.entryAt q = fs.entryAt q) :
        (copyEntries copy src dst faults names gs).2.entryAt q = fs.entryAt q :=
      (ih fun name hname => hq name (List.mem_cons_of_mem _ hname)).trans hgs
    rw [copyEntries]
    split
    · rename_i hc
      exact hrest _ _ (by rwa [hc] at hentry)
    · rename_i hc
      rwa [hc] at hentry
    · rename_i hc
      exact hrest _ _ (by rwa [hc] at hentry)

/-- **A copy changes nothing but at its place and below it.** -/
theorem staysBelow_copyTree (depth : Nat) : StaysBelow (copyTree depth) := by
  induction depth with
  | zero => exact fun _ _ _ _ _ => rfl
  | succ depth ih =>
    intro src dst fs q hq
    rw [copyTree]
    split
    · rfl
    · rw [entryAt_copyEntries ih fun name _ hn => hq ((List.prefix_append _ [name]).trans hn)]
      refine entryAt_put_of_ne _ ?_
      rintro rfl
      exact hq (List.prefix_refl _)

/-- What stands at a place of its own, beside those of the names, is still there when the names have
been copied. -/
theorem entryAt_copyEntries_of_not_mem (hcopy : StaysBelow copy) (hname : name ∉ names) :
    (copyEntries copy src dst faults names fs).2.entryAt (dst.location ++ [name]) =
      fs.entryAt (dst.location ++ [name]) := by
  refine entryAt_copyEntries hcopy fun other hother hpre => ?_
  have heq := hpre.eq_of_length (by simp)
  obtain rfl : other = name := by simpa using heq
  exact hname hother

/-! ## A copy that is not too deep -/

theorem length_child_path (p : Place) (name : Text) :
    (Utf8.encode p.path).length < (Utf8.encode (p.child name).path).length := by
  have hslash : 1 ≤ (Utf8.encode ('/' :: name)).length := by
    have hone : Utf8.encode ('/' :: name) = Utf8.encode ['/'] ++ Utf8.encode name :=
      Utf8.encode_append ['/'] name
    rw [hone, List.length_append]
    exact Nat.le_add_right_of_le (by decide)
  rw [Place.child, Utf8.encode_append, List.length_append]
  omega

theorem copyEntries_ne_tooDeep
    (hentry : ∀ name fs, (copyEntry copy (src.child name) (dst.child name) fs).1 ≠ .tooDeep) :
    (copyEntries copy src dst faults names fs).1 ≠ .tooDeep := by
  induction names generalizing faults fs with
  | nil =>
    rw [copyEntries]
    split <;> simp
  | cons name names ih =>
    have hne := hentry name fs
    rw [copyEntries]
    split
    · exact ih
    · rename_i hc
      rw [hc] at hne
      exact absurd rfl hne
    · exact ih

/-- A copy of an entry is too deep only if that of a directory is. -/
theorem copyEntry_ne_tooDeep (hcopy : (copy src dst fs).1 ≠ .tooDeep) :
    (copyEntry copy src dst fs).1 ≠ .tooDeep := by
  rw [copyEntry]
  dsimp only
  split
  · split
    · simp
    · split
      · simp
      · exact hcopy
  · split
    · simp
    · split <;> simp
  · split
    · simp
    · split <;> simp
  · simp

/-- **A copy is not too deep if its levels are enough for the longest path.** -/
theorem copyTree_ne_tooDeep (h : maxPathLength < (Utf8.encode dst.path).length + depth) :
    (copyTree (depth + 1) src dst fs).1 ≠ .tooDeep := by
  induction depth generalizing src dst fs with
  | zero =>
    rw [copyTree, if_pos (by simpa [isLongPath] using h)]
    simp
  | succ depth ih =>
    rw [copyTree]
    split
    · simp
    · refine copyEntries_ne_tooDeep fun name gs => copyEntry_ne_tooDeep (ih ?_)
      have hlonger := length_child_path dst name
      omega

/-! ## A copy that comes upon itself -/

/-- How the copy of an entry ends, if not well. -/
def EndsBadly (ending : CopyEnd) : Prop :=
  ending = .tooDeep ∨ ∃ fault faults, ending = .faulty (fault :: faults)

theorem copyEntries_ne_done_of_faults (hf : faults ≠ []) :
    (copyEntries copy src dst faults names fs).1 ≠ .done := by
  induction names generalizing faults fs with
  | nil => simp [copyEntries, hf]
  | cons name names ih =>
    rw [copyEntries]
    split
    · exact ih (by simp [hf])
    · simp
    · exact ih hf

/-- If the copy of one entry ends badly whenever it is its turn, then so does the whole. -/
theorem copyEntries_ne_done {I : FileSystem → Prop} (hname : name ∈ names) (hfs : I fs)
    (hkeep : ∀ other fs, I fs → I (copyEntry copy (src.child other) (dst.child other) fs).2)
    (hbad : ∀ fs, I fs → EndsBadly (copyEntry copy (src.child name) (dst.child name) fs).1) :
    (copyEntries copy src dst faults names fs).1 ≠ .done := by
  induction names generalizing faults fs with
  | nil => exact absurd hname List.not_mem_nil
  | cons other names ih =>
    have hnext := hkeep other fs hfs
    rw [copyEntries]
    rcases List.mem_cons.1 hname with rfl | hname
    · rcases hbad fs hfs with hc | ⟨fault, more, hc⟩
      · split <;> simp_all
      · split
        · rename_i hc'
          obtain rfl := CopyEnd.faulty.inj (hc.symm.trans (congrArg Prod.fst hc'))
          exact copyEntries_ne_done_of_faults (by simp)
        · simp
        · simp_all
    · split
      · rename_i hc
        exact ih hname (by rwa [hc] at hnext)
      · simp
      · rename_i hc
        exact ih hname (by rwa [hc] at hnext)

theorem copyEntries_ne_faulty_nil : (copyEntries copy src dst faults names fs).1 ≠ .faulty [] := by
  induction names generalizing faults fs with
  | nil =>
    rw [copyEntries]
    split
    · simp
    · simpa
  | cons name names ih =>
    rw [copyEntries]
    split
    · exact ih
    · simp
    · exact ih

theorem copyTree_ne_faulty_nil : (copyTree depth src dst fs).1 ≠ .faulty [] := by
  cases depth with
  | zero => simp [copyTree]
  | succ depth =>
    rw [copyTree]
    split
    · simp
    · exact copyEntries_ne_faulty_nil

/-- A directory that is not copied to its end is an entry whose copy ends badly. -/
theorem endsBadly_copyEntry (hd : fs.IsDirectory src.location)
    (hdone : (copyTree depth src dst fs).1 ≠ .done) :
    EndsBadly (copyEntry (copyTree depth) src dst fs).1 := by
  have hnil : (copyTree depth src dst fs).1 ≠ .faulty [] := copyTree_ne_faulty_nil
  rw [copyEntry, hd]
  dsimp only
  split
  · exact .inr ⟨_, _, rfl⟩
  · rcases hc : copyTree depth src dst fs with ⟨_ | ⟨e, path⟩ | (_ | ⟨fault, faults⟩) | _, gs⟩
    · simp [hc] at hdone
    · exact .inr ⟨_, _, rfl⟩
    · simp [hc] at hnil
    · exact .inr ⟨_, _, rfl⟩
    · exact .inl rfl

/-- A place is below a directory, but not in it. -/
structure Burrows (fs : FileSystem) (src dst : Location) : Prop where
  ne_nil : dst ≠ []
  isName : isName (dst.getLast ne_nil)
  parent : fs.IsDirectory dst.dropLast
  below : ∃ name, src ++ [name] <+: dst.dropLast

theorem isDirectory_put (h0 : p ≠ []) (hn : isName (p.getLast h0)) (hd : fs.IsDirectory p.dropLast) :
    (fs.put p .directory).IsDirectory p := by
  by_cases hp : fs.IsDirectory p
  · rw [put, dif_neg fun ha : fs.Accepts p => ha.free hp]
    exact hp
  · rw [IsDirectory, entryAt_put ⟨h0, hd, hp, hn⟩, if_pos rfl]

/-- Behind the first name on the way to it, such a place is below the directory of that name. -/
theorem exists_append_of_prefix {r : Location} (h0 : q ≠ []) (h : r <+: q.dropLast) :
    ∃ name, r ++ [name] <+: q := by
  obtain ⟨t, ht⟩ := h
  have hq : q = r ++ (t ++ [q.getLast h0]) := by
    rw [← List.append_assoc, ht, List.dropLast_concat_getLast]
  cases t with
  | nil => exact ⟨q.getLast h0, [], by rw [List.append_nil]; exact hq.symm⟩
  | cons name t =>
    refine ⟨name, t ++ [q.getLast h0], ?_⟩
    rw [List.append_assoc]
    exact hq.symm

/-- **A copy that comes upon itself does not end well.** -/
theorem copyTree_ne_done (h : fs.Burrows src.location dst.location) :
    (copyTree depth src dst fs).1 ≠ .done := by
  induction depth generalizing src dst fs with
  | zero => simp [copyTree]
  | succ depth ih =>
    obtain ⟨name, hbelow⟩ := h.below
    have hentry : fs.IsDirectory (src.location ++ [name]) := isDirectory_of_prefix h.parent hbelow
    have hlength : (src.location ++ [name]).length < dst.location.length := by
      have hle := hbelow.length_le
      have hpos := List.length_pos_iff.2 h.ne_nil
      rw [List.length_dropLast] at hle
      omega
    -- the directory that the copy comes upon and the new one are there, whatever has been copied
    have hkeep (other : Text) (gs : FileSystem) {r : Location} (hr : r.length ≤ dst.location.length) :
        (copyEntry (copyTree depth) (src.child other) (dst.child other) gs).2.entryAt r =
          gs.entryAt r := by
      refine staysBelow_copyEntry (staysBelow_copyTree depth) _ _ gs r fun hpre => ?_
      have hle := hpre.length_le
      simp only [Place.child, List.length_append, List.length_singleton] at hle
      omega
    rw [copyTree]
    split
    · simp
    · refine copyEntries_ne_done (mem_namesIn.2 ⟨_, hentry⟩)
        (I := fun gs => gs.IsDirectory (src.location ++ [name]) ∧ gs.IsDirectory dst.location)
        ⟨?_, isDirectory_put h.ne_nil h.isName h.parent⟩ (fun other gs hgs => ?_) fun gs hgs => ?_
      · rw [IsDirectory, entryAt_put_of_ne]
        · exact hentry
        · intro he
          rw [he] at hlength
          exact Nat.lt_irrefl _ hlength
      · exact ⟨(hkeep other gs (Nat.le_of_lt hlength)).trans hgs.1,
          (hkeep other gs (Nat.le_refl _)).trans hgs.2⟩
      · refine endsBadly_copyEntry hgs.1 (ih ⟨by simp [Place.child], ?_, ?_, ?_⟩)
        · simpa [Place.child] using isName_of_isDirectory hgs.1 (List.mem_append_right _ (by simp))
        · simpa [Place.child] using hgs.2
        · simpa [Place.child] using exists_append_of_prefix h.ne_nil hbelow

end ReplyLedger.FileSystem
