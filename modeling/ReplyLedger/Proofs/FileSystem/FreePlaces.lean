import ReplyLedger.Proofs.FileSystem.Directory
import ReplyLedger.Proofs.FileSystem.Files

/-!
# Free places

Where nothing is found (`LeadsNowhere`), a path leads to a free place or to a link, if it is not
refused (`LeadsNowhere.endsAt_of_kept`). A file that is written there is a new one
(`LeadsNowhere.keepsFiles_changeFile`), and an entry that is moved there takes the place of no file
(`LeadsNowhere.relocation_of_relocateAll`). Nothing is found in an empty directory
(`LeadsToEmpty`).
-/

namespace ReplyLedger.FileSystem

variable {fs gs : FileSystem} {cwd : CurrentDirectory}

/-! ## Paths that lead somewhere -/

theorem walk_ne_removed (last : LastName) (links : Nat) (here : Location) (segments : List Text) :
    fs.walk last links here segments ≠ .ok .removed := by
  fun_induction walk fs last links here segments with
  | case1 links here segments found hadv =>
    rintro h
    obtain rfl := Except.ok.inj h
    fun_induction advance fs last here segments <;> simp_all
  | case2 => simp
  | case3 => simp
  | case4 here segments directory target rest hadv links ih => exact ih

/-- Where something is found, a call that keeps a link at the end finds an entry. -/
theorem exists_entry_of_status {q : Location} {e : Entry} (hq : ∀ s ∈ q, '/' ∉ s)
    (h : fs.status cwd (FilePath.ofNames q).text = .ok e) :
    ∃ p d, fs.find cwd .kept (FilePath.ofNames q).text = .ok (.entry p d) := by
  rcases find_last fs cwd .kept (FilePath.ofNames q).text with hl | hd
  · rw [status, ← hl] at h
    rcases hf : fs.find cwd .kept (FilePath.ofNames q).text with error | (⟨p, d⟩ | _ | _)
    · simp [hf, bind, Except.bind] at h
    · exact ⟨p, d, rfl⟩
    · simp [hf, bind, Except.bind] at h
    · rw [find_ofNames cwd .kept hq] at hf
      exact absurd hf (walk_ne_removed _ _ _ _)
  · rcases hf : fs.find cwd .kept (FilePath.ofNames q).text with error | found
    · rw [hf] at hd
      cases hd
    · rw [hf] at hd
      cases hd with
      | link r target => exact ⟨r, .link target, rfl⟩

/-! ## Paths that lead nowhere -/

/-- Nothing is found at a path. -/
def LeadsNowhere (fs : FileSystem) (cwd : CurrentDirectory) (path : Text) : Prop :=
  ∀ e, fs.status cwd path ≠ .ok e

namespace LeadsNowhere

variable {path : Text} {p q : Location} {found : Found}

theorem endsAt_of_followed (h : fs.LeadsNowhere cwd path)
    (hf : fs.find cwd .followed path = .ok found) :
    ∃ directory name, found = .vacant directory name := by
  rcases found with ⟨p, e⟩ | ⟨directory, name⟩ | _
  · exact absurd (by rw [status, hf]; rfl) (h e)
  · exact ⟨directory, name, rfl⟩
  · exact absurd (by rw [status, hf]; rfl) (h .directory)

/-- A call that keeps a link at the end finds a free place, or the link. -/
theorem endsAt_of_kept (h : fs.LeadsNowhere cwd path) (hf : fs.find cwd .kept path = .ok found) :
    (∃ directory name, found = .vacant directory name) ∨
      ∃ r target, found = .entry r (.link target) := by
  rcases find_followed hf with hfollowed | ⟨-, hlink⟩
  · exact .inl (h.endsAt_of_followed hfollowed)
  · exact .inr hlink

/-- A file that is written is a new one. -/
theorem keepsFiles_changeFile (h : fs.LeadsNowhere cwd path) {change : Bytes → Bytes}
    (hc : fs.changeFile cwd path change = .ok gs) : fs.KeepsFiles False id gs := by
  obtain ⟨found, p, old, hf, hp, rfl, -⟩ := exists_place_of_changeFile hc
  obtain ⟨directory, name, rfl⟩ :=
    h.endsAt_of_followed ((find_followed hf).resolve_right (by simp))
  obtain rfl := Option.some.inj hp
  exact .put (entryAt_of_find_vacant hf) _

/-- **An entry that is moved takes the place of no file**, and it is copied only if it is a directory
with the place below it, though the paths do not show that. -/
theorem relocation_of_relocateAll (h : fs.LeadsNowhere cwd (FilePath.ofNames q).text)
    (hp : p ≠ []) (hq : ∀ s ∈ q, '/' ∉ s) {way : Relocation}
    (hw : fs.relocateAll cwd (FilePath.ofNames p).text (FilePath.ofNames q).text = .ok way) :
    ∃ p' e q', fs.find cwd .kept (FilePath.ofNames p).text = .ok (.entry p' e) ∧
      fs.LeadsTo ([], q) q' ∧ (∀ bytes, fs.entryAt q' ≠ some (.file bytes)) ∧
      (way = .displace (.move p' q') ∨
        way = .copy p' q' ∧ e = .directory ∧ fs.entryAt q' = none ∧ p' <+: q' ∧ ¬ p <+: q) := by
  rcases of_relocateAll hw with ⟨d, rfl, hr⟩ | ⟨p', directory, name, rfl, hs, ht, hpre, hstart⟩
  · obtain ⟨p', e, found, hs, ht⟩ := exists_found_of_rename hr
    rcases h.endsAt_of_kept ht with ⟨directory, name, rfl⟩ | ⟨r, target, rfl⟩
    · have hfree := entryAt_of_find_vacant ht
      refine ⟨p', e, _, hs, leadsTo_of_find hq ht rfl, by simp [hfree],
        .inl (congrArg Relocation.displace ?_)⟩
      rw [rename_vacant hs ht] at hr
      split at hr
      · cases hr
      · exact (Except.ok.inj hr).symm
    · have hlink : fs.entryAt r = some (.link target) := entryAt_of_find ht rfl
      exact ⟨p', e, r, hs, leadsTo_of_find hq ht rfl, by simp [hlink],
        .inl (congrArg Relocation.displace (eq_move_of_rename hs ht hr))⟩
  · exact ⟨p', .directory, _, hs, leadsTo_of_find hq ht rfl, by simp [entryAt_of_find_vacant ht],
      .inr ⟨rfl, rfl, entryAt_of_find_vacant ht, hpre,
        fun hnames => hstart (FilePath.startsWith_text_ofNames hp hnames)⟩⟩

end LeadsNowhere

/-! ## Empty directories -/

variable {path : FilePath} {d : Location} {name : Text}

/-- A path leads to a directory with nothing in it. -/
structure LeadsToEmpty (fs : FileSystem) (cwd : CurrentDirectory) (path : FilePath)
    (d : Location) : Prop extends fs.Leads cwd path d where
  empty : ∀ name, fs.entryAt (d ++ [name]) = none

/-- Nothing is in a new directory. -/
theorem leadsToEmpty_put (hp : path.IsProper)
    (hf : fs.find cwd .kept path.text = .ok (.vacant d name)) (ha : fs.Accepts (d ++ [name])) :
    (fs.put (d ++ [name]) .directory).LeadsToEmpty cwd path (d ++ [name]) := by
  have hfree := entryAt_of_find_vacant hf
  have hnew : (fs.put (d ++ [name]) .directory).entryAt (d ++ [name]) = some .directory := by
    rw [entryAt_put ha, if_pos rfl]
  have hfind := find_of_place (keeps_put (by simp [hfree])) hnew (by simp)
    ((find_followed hf).resolve_right (by simp)) rfl
  refine ⟨⟨hp, hnew, hfind⟩, fun u => ?_⟩
  rw [entryAt_put_of_ne _ (by simp)]
  exact entryAt_append_eq_none (by simp [IsDirectory, hfree]) (List.cons_ne_nil u [])

/-- The path of a name in an empty directory leads nowhere. -/
theorem LeadsToEmpty.leadsNowhere_child (h : fs.LeadsToEmpty cwd path d) (hp : isPlain name) :
    fs.LeadsNowhere cwd (path.child name).text := by
  intro e he
  by_cases hl : isTooLong name
  · simp [h.status_tooLong hp hl] at he
  · simp [h.status_vacant (by simp [isName, hp, hl]) (h.empty name)] at he

end ReplyLedger.FileSystem
