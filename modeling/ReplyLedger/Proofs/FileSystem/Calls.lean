import ReplyLedger.FileSystem.Move
import ReplyLedger.Proofs.FileSystem.Lookup
import ReplyLedger.Proofs.Text.Cut

/-!
# Calls at settled locations

A call about the path of a settled location changes the entry at that location and nothing else:
writing sets a file there (`changeFile_eq_ok`), making a directory sets a directory where nothing was
(`makeDirectory_eq_ok`), unlinking erases a file (`unlink_eq_ok`), and moving moves from the one
settled location to the other (`relocateAll_eq_ok`). None of them puts a link on the way to a
settled location.
-/

namespace ReplyLedger

/-- The path of a location below another begins with the path of that one and a slash. -/
theorem FilePath.startsWith_text_ofNames {p q : Location} (hp : p ≠ []) (h : p <+: q) :
    Text.startsWith ((ofNames p).text ++ ['/']) ((ofNames q).text ++ ['/']) := by
  obtain ⟨r, rfl⟩ := h
  by_cases hr : r = []
  · rw [hr, List.append_nil]
    simpa using Text.startsWith_append ((ofNames p).text ++ ['/']) []
  · rw [text_ofNames, text_ofNames, Text.joinWith_append hp hr]
    simpa using Text.startsWith_append ('/' :: Text.joinWith ['/'] p ++ ['/'])
      (Text.joinWith ['/'] r ++ ['/'])

namespace FileSystem

variable {fs gs : FileSystem} {cwd : CurrentDirectory} {p q : Location}

/-! ## Changes elsewhere -/

theorem entryAt_put_of_ne (e : Entry) (h : q ≠ p) : (fs.put p e).entryAt q = fs.entryAt q := by
  by_cases ha : fs.Accepts p
  · rw [entryAt_put ha, if_neg h]
  · rw [put, dif_neg ha]

theorem entryAt_erase_of_ne (h : q ≠ p) : (fs.erase p).entryAt q = fs.entryAt q := by
  by_cases hd : fs.IsDirectory p
  · rw [erase, dif_neg (by simpa using hd)]
  · rw [entryAt_erase hd, if_neg h]

/-- Where nothing stands, nothing is erased. -/
theorem erase_of_vacant (h : fs.entryAt p = none) : fs.erase p = fs := by
  have hp : p ≠ [] := by
    rintro rfl
    simp [entryAt_nil] at h
  have hd : ¬ fs.IsDirectory p := by simp [IsDirectory, h]
  have hentries : fs.entriesWithout p = fs.entries := by
    refine List.filter_eq_self.2 fun x hx => ?_
    simp only [ne_eq, decide_eq_true_eq]
    rintro rfl
    simp [entryAt_of_mem hx] at h
  obtain ⟨entries, htree⟩ := fs
  rw [erase, dif_pos hd]
  exact FileSystem.mk.injEq .. ▸ hentries

theorem Settled.put {e : Entry} (he : ∀ target, e ≠ .link target) (hq : fs.Settled q) :
    (fs.put p e).Settled q := by
  refine ⟨hq.isPlain, fun r target hr => ?_⟩
  by_cases ha : fs.Accepts p
  · rw [entryAt_put ha]
    split
    · simpa using he target
    · exact hq.not_link r target hr
  · rw [FileSystem.put, dif_neg ha]
    exact hq.not_link r target hr

theorem Settled.erase (hq : fs.Settled q) : (fs.erase p).Settled q := by
  refine ⟨hq.isPlain, fun r target hr => ?_⟩
  by_cases hd : fs.IsDirectory p
  · rw [FileSystem.erase, dif_neg (by simpa using hd)]
    exact hq.not_link r target hr
  · rw [entryAt_erase hd]
    split
    · simp
    · exact hq.not_link r target hr

/-! ## Where an entry can be set -/

theorem accepts_of_vacant {directory : Location} {name : Text} (hd : fs.IsDirectory directory)
    (hn : isName name) (h : fs.entryAt (directory ++ [name]) = none) :
    fs.Accepts (directory ++ [name]) where
  ne_nil := by simp
  parent := by rwa [List.dropLast_concat]
  free := by simp [IsDirectory, h]
  isName_getLast := by rwa [List.getLast_concat]

theorem accepts_of_entryAt {e : Entry} (h : fs.entryAt p = some e) (he : e ≠ .directory) :
    fs.Accepts p := by
  have hp : p ≠ [] := by
    rintro rfl
    exact he (Option.some.inj h).symm
  have hm := (entryAt_eq_some_iff hp).1 h
  exact ⟨hp, isDirectory_dropLast_of_mem hm, by simpa [IsDirectory, h] using he,
    fs.isTree.isName _ hm _ (List.getLast_mem hp)⟩

/-! ## The calls -/

/-- Writing sets a file at the location, where a file or nothing was. -/
theorem changeFile_eq_ok {change : Bytes → Bytes} (hp : fs.Settled p)
    (h : fs.changeFile cwd (FilePath.ofNames p).text change = .ok gs) :
    fs.Accepts p ∧ ∃ bytes, gs = fs.put p (.file (change bytes)) ∧
      (fs.entryAt p = some (.file bytes) ∨ fs.entryAt p = none ∧ bytes = []) := by
  have hs := sighting_find cwd .made hp
  simp only [changeFile] at h
  generalize fs.find cwd .made (FilePath.ofNames p).text = found at h hs
  cases hs with
  | @entry e he =>
    rcases e with _ | bytes | target
    · simp [bind, Except.bind] at h
    · exact ⟨accepts_of_entryAt he (by simp), bytes, (Except.ok.inj h).symm, .inl he⟩
    · simp [bind, Except.bind] at h
  | vacant hd hn hp he =>
    subst hp
    exact ⟨accepts_of_vacant hd hn he, [], (Except.ok.inj h).symm, .inr ⟨he, rfl⟩⟩
  | refused => simp [bind, Except.bind] at h

/-- A new directory is made where nothing was. -/
theorem makeDirectory_eq_ok (hp : fs.Settled p)
    (h : fs.makeDirectory cwd (FilePath.ofNames p).text = .ok gs) :
    fs.Accepts p ∧ fs.entryAt p = none ∧ gs = fs.put p .directory := by
  have hs := sighting_find cwd .kept hp
  simp only [makeDirectory] at h
  generalize fs.find cwd .kept (FilePath.ofNames p).text = found at h hs
  cases hs with
  | entry he => simp [bind, Except.bind] at h
  | vacant hd hn hp he =>
    subst hp
    exact ⟨accepts_of_vacant hd hn he, he, (Except.ok.inj h).symm⟩
  | refused => simp [bind, Except.bind] at h

/-- Unlinking erases a file. -/
theorem unlink_eq_ok (hp : fs.Settled p)
    (h : fs.unlink cwd (FilePath.ofNames p).text = .ok gs) :
    (∃ bytes, fs.entryAt p = some (.file bytes)) ∧ gs = fs.erase p := by
  have hs := sighting_find cwd .kept hp
  simp only [unlink] at h
  generalize fs.find cwd .kept (FilePath.ofNames p).text = found at h hs
  cases hs with
  | @entry e he =>
    rcases e with _ | bytes | target
    · simp [bind, Except.bind] at h
    · exact ⟨⟨bytes, he⟩, (Except.ok.inj h).symm⟩
    · exact absurd he (hp.not_link p target (List.prefix_refl p))
  | vacant hd hn hp he => simp [bind, Except.bind] at h
  | refused => simp [bind, Except.bind] at h

/-! ### Renaming -/

section Rename

variable {source target : Text} {r : Location} {e e' : Entry} {d : Displacement}

/-- An entry is renamed to a place that its target leads to. -/
theorem exists_found_of_rename (h : fs.rename cwd source target = .ok d) :
    ∃ p e found, fs.find cwd .kept source = .ok (.entry p e) ∧
      fs.find cwd .kept target = .ok found := by
  simp only [rename] at h
  rcases hs : fs.find cwd .kept source with error | (⟨p, e⟩ | ⟨directory, name⟩ | _)
  · simp [hs, bind, Except.bind] at h
  · rcases ht : fs.find cwd .kept target with error | found
    · simp [hs, ht, bind, Except.bind] at h
    · exact ⟨p, e, found, rfl, rfl⟩
  · simp [hs, bind, Except.bind] at h
  · simp [hs, bind, Except.bind] at h

theorem rename_vacant {directory : Location} {name : Text}
    (hs : fs.find cwd .kept source = .ok (.entry p e))
    (ht : fs.find cwd .kept target = .ok (.vacant directory name)) :
    fs.rename cwd source target =
      if p.isPrefixOf (directory ++ [name]) then .error .invalid
      else .ok (.move p (directory ++ [name])) := by
  rw [rename, hs, ht]
  rfl

theorem eq_move_of_rename (hs : fs.find cwd .kept source = .ok (.entry p e))
    (ht : fs.find cwd .kept target = .ok (.entry r e'))
    (h : fs.rename cwd source target = .ok d) : d = .move p r := by
  simp only [rename, hs, ht, bind, Except.bind] at h
  split at h
  · exact (Except.ok.inj h).symm
  · split at h
    · cases h
    · split at h
      · cases h
      · split at h
        · cases h
        · exact (Except.ok.inj h).symm

/-- A rename moves from the one location to the other. -/
theorem rename_eq_ok (hp : fs.Settled p) (hq : fs.Settled q)
    (h : fs.rename cwd (FilePath.ofNames p).text (FilePath.ofNames q).text = .ok d) :
    d = .move p q := by
  obtain ⟨p', e, found, hs, ht⟩ := exists_found_of_rename h
  have hsource := sighting_find cwd .kept hp
  have htarget := sighting_find cwd .kept hq
  rw [hs] at hsource
  rw [ht] at htarget
  cases hsource with
  | entry he =>
    cases htarget with
    | entry he' => exact eq_move_of_rename hs ht h
    | vacant hd hn hpq =>
      rw [rename_vacant hs ht, hpq] at h
      split at h
      · cases h
      · exact (Except.ok.inj h).symm

/-- What is moved is renamed, unless it is a directory that is copied to a free place below itself,
since the paths do not show that. -/
theorem of_relocateAll {source target : Text} {way : Relocation}
    (h : fs.relocateAll cwd source target = .ok way) :
    (∃ d, way = .displace d ∧ fs.rename cwd source target = .ok d) ∨
      ∃ p directory name, way = .copy p (directory ++ [name]) ∧
        fs.find cwd .kept source = .ok (.entry p .directory) ∧
        fs.find cwd .kept target = .ok (.vacant directory name) ∧ p <+: directory ++ [name] ∧
        ¬ Text.startsWith (source ++ ['/']) (target ++ ['/']) := by
  unfold relocateAll at h
  split at h
  · rename_i d hr
    exact .inl ⟨d, (Except.ok.inj h).symm, hr⟩
  · rename_i error hr
    split at h
    · rename_i p hs
      split at h
      · simp at h
      · rename_i hstart
        split at h
        · rename_i directory name ht
          refine .inr ⟨p, directory, name, (Except.ok.inj h).symm, hs, ht, ?_, hstart⟩
          -- a directory is refused a free place only below itself
          rw [rename_vacant hs ht] at hr
          split at hr
          · rename_i hpre
            exact List.isPrefixOf_iff_prefix.1 hpre
          · cases hr
        · simp at h
        · simp at h
    · simp at h
    · simp at h
    · simp at h

/-- Moving moves from the one location to the other: what cannot be renamed because it would come to
stand below itself is not copied either. -/
theorem relocateAll_eq_ok {way : Relocation} (hp : fs.Settled p) (hq : fs.Settled q) (h0 : p ≠ [])
    (h : fs.relocateAll cwd (FilePath.ofNames p).text (FilePath.ofNames q).text = .ok way) :
    way = .displace (.move p q) := by
  rcases of_relocateAll h with ⟨d, rfl, hr⟩ | ⟨p', directory, name, rfl, hs, ht, hpre, hstart⟩
  · rw [rename_eq_ok hp hq hr]
  · -- that it would is what the paths of the locations show
    have hsource := sighting_find cwd .kept hp
    have htarget := sighting_find cwd .kept hq
    rw [hs] at hsource
    rw [ht] at htarget
    cases hsource with
    | entry he =>
      cases htarget with
      | vacant hd hn hpq =>
        exact absurd (FilePath.startsWith_text_ofNames h0 (hpq ▸ hpre)) hstart

end Rename

/-- A move changes nothing that is neither at or below its source nor at or below its target. -/
theorem entryAt_move_of_not_below {r : Location} (hp : ¬ p <+: r) (hq : ¬ q <+: r) :
    (fs.move p q).entryAt r = fs.entryAt r := by
  by_cases hc : fs.CanMove p q
  · rw [entryAt_move hc hq, if_neg hp]
  · rw [move, dif_neg hc]

end FileSystem

end ReplyLedger
