import ReplyLedger.Proofs.FileSystem.Directory
import ReplyLedger.Proofs.FileSystem.NewDirectories

/-!
# Missing ancestors

`withAncestors fs q` is what stands where once the missing directories on the way to `q` have been
made. When a file is written at `q` or an entry is moved there, the directory above `q` is there, and
so are all above it; so if nothing has been done before but to make such directories, those that were
missing have been made, and nothing else has changed (`entryAt_of_accepts`).

The other lemmas say what is seen of a settled location and of a move between two of them.
-/

namespace ReplyLedger.FileSystem

variable {fs gs : FileSystem} {cwd : CurrentDirectory} {p q r d : Location}

/-- What stands at a location once the missing directories on the way to `q` have been made. -/
def withAncestors (fs : FileSystem) (q r : Location) : Option Entry :=
  if r <+: q ∧ fs.entryAt r = none then some .directory else fs.entryAt r

/-- What is not on the way is left as it is. -/
theorem withAncestors_of_apart (h : ¬ r <+: q) : fs.withAncestors q r = fs.entryAt r :=
  if_neg fun hr => h hr.1

/-- On the way to a directory, there are directories. -/
theorem isDirectory_of_prefix (hd : fs.IsDirectory d) (h : r <+: d) : fs.IsDirectory r := by
  obtain ⟨t, rfl⟩ := h
  by_cases ht : t = []
  · simpa [ht] using hd
  · refine Decidable.of_not_not fun hn => ?_
    simp [IsDirectory, entryAt_append_eq_none hn ht] at hd

/-- What is above a location is the location above it, or above that one. -/
theorem prefix_dropLast_iff (hq : q ≠ []) (hr : r ≠ q) : r <+: q.dropLast ↔ r <+: q := by
  conv_rhs => rw [← List.dropLast_concat_getLast hq]
  rw [List.prefix_concat_iff, List.dropLast_concat_getLast hq]
  exact (or_iff_right hr).symm

/-- **Where an entry can be set, no directory on the way is missing any more.** -/
theorem GainsDirectories.entryAt_of_accepts (h : fs.GainsDirectories (· <+: q.dropLast) gs)
    (ha : gs.Accepts q) (hr : r ≠ q) : gs.entryAt r = fs.withAncestors q r := by
  by_cases hpre : r <+: q.dropLast
  · have hdir := isDirectory_of_prefix ha.parent hpre
    rcases he : fs.entryAt r with _ | e
    · rw [withAncestors, if_pos ⟨(prefix_dropLast_iff ha.ne_nil hr).1 hpre, he⟩]
      exact hdir
    · rw [withAncestors, if_neg (by simp [he]), h.entryAt_eq he, he]
  · rw [withAncestors_of_apart fun hr' => hpre ((prefix_dropLast_iff ha.ne_nil hr).2 hr')]
    exact (h r).resolve_right fun hn => hpre hn.1

/-- The directories on the way do not touch the location itself. -/
theorem GainsDirectories.entryAt_self (h : fs.GainsDirectories (· <+: q.dropLast) gs)
    (hq : q ≠ []) : gs.entryAt q = fs.entryAt q := by
  refine (h q).resolve_right fun hn => ?_
  have hle := hn.1.length_le
  have hlt := List.length_pos_iff.2 hq
  rw [List.length_dropLast] at hle
  omega

/-! ## What is seen -/

/-- What stands at a settled location is what is seen there. -/
theorem status_of_entryAt (hp : fs.Settled p) {e : Entry} (he : fs.entryAt p = some e) :
    fs.status cwd (FilePath.ofNames p).text = .ok e := by
  have hl (target : Text) : e ≠ .link target := by
    rintro rfl
    exact hp.not_link p target (List.prefix_refl p) he
  rcases List.eq_nil_or_concat p with rfl | ⟨d, name, rfl⟩
  · rw [entryAt_nil] at he
    rw [(Leads.ofNames fs.isDirectory_nil).status_eq, Option.some.inj he]
  · rw [List.concat_eq_append] at he ⊢
    exact (Leads.ofNames (isDirectory_of_entryAt_concat he)).status_child he hl

/-! ## What can be moved -/

/-- An entry that is moved to a settled location where nothing stands can be moved there. -/
theorem canMove_of_rename {displacement : Displacement} (hp : fs.Settled p) (hq : fs.Settled q)
    (h0 : p ≠ []) (hfree : fs.entryAt q = none)
    (h : fs.rename cwd (FilePath.ofNames p).text (FilePath.ofNames q).text = .ok displacement) :
    fs.CanMove p q ∧ fs.entryAt p ≠ none := by
  obtain ⟨p', e, found, hs, ht⟩ := exists_found_of_rename h
  have hsource := sighting_find cwd .kept hp
  have htarget := sighting_find cwd .kept hq
  rw [hs] at hsource
  rw [ht] at htarget
  cases hsource with
  | entry he =>
    cases htarget with
    | entry he' => simp [he'] at hfree
    | vacant hd hn hpq _ =>
      subst hpq
      rw [rename_vacant hs ht] at h
      split at h
      · cases h
      · rename_i hpre
        exact ⟨⟨h0, accepts_of_vacant hd hn hfree, by simpa using hpre⟩, by simp [he]⟩

/-- **A move to a free place moves the entry.** -/
theorem relocateAll_eq_move {way : Relocation} (hp : fs.Settled p) (hq : fs.Settled q)
    (h0 : p ≠ []) (hfree : fs.entryAt q = none)
    (h : fs.relocateAll cwd (FilePath.ofNames p).text (FilePath.ofNames q).text =
      .ok way) :
    way = .displace (.move p q) ∧ fs.CanMove p q ∧ fs.entryAt p ≠ none := by
  obtain rfl := relocateAll_eq_ok hp hq h0 h
  refine ⟨rfl, ?_⟩
  rcases of_relocateAll h with ⟨d, hd, hr⟩ | ⟨p', directory, name, hcopy, -⟩
  · cases hd
    exact canMove_of_rename hp hq h0 hfree hr
  · cases hcopy

end ReplyLedger.FileSystem
