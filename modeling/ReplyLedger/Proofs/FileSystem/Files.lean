import ReplyLedger.Proofs.FileSystem.Links
import ReplyLedger.Proofs.FileSystem.NewDirectories
import Mathlib.Data.Multiset.MapFold

/-!
# Regular files

`fileAt` is the view of a file system that shows regular files only.

Files are kept by a change (`KeepsFiles`) if each of them is found again with its bytes, at the same
location or at another one, and no two at one location. More bytes may have been added to a file, if
the change is one that lets files grow. If it is not, what the files hold is still there, and as often
as before (`KeepsFiles.contents_le`).
-/

namespace ReplyLedger.FileSystem

variable {fs gs hs : FileSystem} {p q r : Location} {bytes : Bytes}

/-- The bytes of the regular file at a location, if there is one. -/
def fileAt (fs : FileSystem) (p : Location) : Option Bytes :=
  match fs.entryAt p with
  | some (.file bytes) => some bytes
  | _ => none

theorem fileAt_congr (h : fs.entryAt p = gs.entryAt q) : fs.fileAt p = gs.fileAt q := by
  rw [fileAt, fileAt, h]

theorem fileAt_eq_none (h : fs.entryAt p = none) : fs.fileAt p = none := by
  rw [fileAt, h]

theorem fileAt_eq_some_iff : fs.fileAt p = some bytes ↔ fs.entryAt p = some (.file bytes) := by
  rw [fileAt]
  rcases fs.entryAt p with _ | _ | b | target <;> simp

/-- A move changes files at the two locations only, unless it moves a directory. -/
theorem of_fileAt_move (h : (fs.move p q).fileAt r ≠ fs.fileAt r) :
    r = p ∨ r = q ∨ fs.IsDirectory p ∧ (p <+: r ∨ q <+: r) := by
  by_cases hc : fs.CanMove p q
  · by_cases hd : fs.IsDirectory p
    · by_cases hqr : q <+: r
      · exact .inr (.inr ⟨hd, .inr hqr⟩)
      · by_cases hpr : p <+: r
        · exact .inr (.inr ⟨hd, .inl hpr⟩)
        · exact absurd (fileAt_congr (entryAt_move_of_not_below hpr hqr)) h
    · -- nothing stands below a file, before the move and after it
      by_cases hqr : q <+: r
      · obtain ⟨t, rfl⟩ := hqr
        by_cases ht : t = []
        · exact .inr (.inl (by simp [ht]))
        · have hafter : (fs.move p q).fileAt (q ++ t) = none := by
            rw [fileAt_congr (entryAt_move_append hc t), fileAt_eq_none (entryAt_append_eq_none hd ht)]
          rw [hafter, fileAt_eq_none (entryAt_append_eq_none hc.2.1.free ht)] at h
          exact absurd rfl h
      · by_cases hpr : p <+: r
        · obtain ⟨t, rfl⟩ := hpr
          by_cases ht : t = []
          · exact .inl (by simp [ht])
          · have hafter : (fs.move p q).fileAt (p ++ t) = none :=
              fileAt_eq_none (by rw [entryAt_move hc hqr, if_pos (List.prefix_append p t)])
            rw [hafter, fileAt_eq_none (entryAt_append_eq_none hd ht)] at h
            exact absurd rfl h
        · exact absurd (fileAt_congr (entryAt_move_of_not_below hpr hqr)) h
  · rw [FileSystem.move, dif_neg hc] at h
    exact absurd rfl h

/-! ## Keeping files -/

/-- Every regular file is found again at the location that `move` gives for its own, with its bytes.
More bytes have been added to it only if `grows` holds. -/
structure KeepsFiles (grows : Prop) (move : Location → Location) (fs gs : FileSystem) : Prop where
  fileAt : ∀ {p bytes}, fs.fileAt p = some bytes →
    ∃ more, gs.fileAt (move p) = some (bytes ++ more) ∧ (more ≠ [] → grows)
  injOn : ∀ {p q b c}, fs.fileAt p = some b → fs.fileAt q = some c → move p = move q → p = q

namespace KeepsFiles

variable {grows grows' : Prop} {f g : Location → Location}

theorem mono (h : fs.KeepsFiles grows f gs) (hg : grows → grows') : fs.KeepsFiles grows' f gs :=
  ⟨fun hp => (h.fileAt hp).imp fun _ hm => hm.imp_right fun hmore hne => hg (hmore hne), h.injOn⟩

/-- What is still there is kept. -/
theorem of_entryAt (h : ∀ p e, fs.entryAt p = some e → gs.entryAt p = some e) :
    fs.KeepsFiles grows id gs := by
  refine ⟨fun {p bytes} hp => ⟨[], ?_, by simp⟩, fun _ _ he => he⟩
  rw [fileAt_eq_some_iff] at hp
  rw [id, List.append_nil, fileAt_eq_some_iff]
  exact h p _ hp

theorem refl (fs : FileSystem) : fs.KeepsFiles grows id fs := of_entryAt fun _ _ he => he

theorem of_gains {T : Location → Prop} (h : fs.GainsDirectories T gs) :
    fs.KeepsFiles grows id gs := of_entryAt fun _ _ he => h.entryAt_eq he

theorem trans (h : fs.KeepsFiles grows f gs) (h' : gs.KeepsFiles grows g hs) :
    fs.KeepsFiles grows (g ∘ f) hs := by
  constructor
  · intro p bytes hp
    obtain ⟨more, hm, hgrows⟩ := h.fileAt hp
    obtain ⟨more', hm', hgrows'⟩ := h'.fileAt hm
    refine ⟨more ++ more', by rw [Function.comp_apply, hm', List.append_assoc], fun hne => ?_⟩
    by_cases h0 : more = []
    · exact hgrows' fun h0' => hne (by rw [h0, h0', List.append_nil])
    · exact hgrows h0
  · intro p q b c hp hq he
    obtain ⟨_, hp', -⟩ := h.fileAt hp
    obtain ⟨_, hq', -⟩ := h.fileAt hq
    exact h.injOn hp hq (h'.injOn hp' hq' he)

/-- What is set at a free place takes the place of nothing. -/
theorem put (h : fs.entryAt p = none) (e : Entry) : fs.KeepsFiles grows id (fs.put p e) := by
  refine of_entryAt fun q d hd => ?_
  have hqp : q ≠ p := by
    rintro rfl
    simp [h] at hd
  rw [entryAt_put_of_ne e hqp, hd]

/-- A file is kept when it grows. -/
theorem append (hg : grows) (h : fs.fileAt p = some bytes) (more : Bytes) :
    fs.KeepsFiles grows id (fs.put p (.file (bytes ++ more))) := by
  have ha := accepts_of_entryAt (fileAt_eq_some_iff.1 h) (by simp)
  refine ⟨fun {q b} hq => ?_, fun _ _ he => he⟩
  by_cases hqp : q = p
  · subst hqp
    obtain rfl := Option.some.inj (h.symm.trans hq)
    exact ⟨more, by rw [id, fileAt_eq_some_iff, entryAt_put ha, if_pos rfl], fun _ => hg⟩
  · refine ⟨[], ?_, by simp⟩
    rw [id, List.append_nil, fileAt_congr (entryAt_put_of_ne _ hqp), hq]

/-- A move that puts an entry where no file is keeps all files, unless it is refused. -/
theorem move (hq : ∀ bytes, fs.entryAt q ≠ some (.file bytes)) :
    fs.KeepsFiles grows (relocate p q) (fs.move p q) ∨ fs.move p q = fs := by
  by_cases hc : fs.CanMove p q
  swap
  · exact .inr (by rw [FileSystem.move, dif_neg hc])
  have hne {r : Location} {b : Bytes} (hr : fs.fileAt r = some b) : r ≠ q := by
    rintro rfl
    exact hq b (fileAt_eq_some_iff.1 hr)
  have hmem {r : Location} {b : Bytes} (hr : fs.fileAt r = some b) : (r, .file b) ∈ fs.entries := by
    rw [fileAt_eq_some_iff] at hr
    refine (entryAt_eq_some_iff ?_).1 hr
    rintro rfl
    simp [entryAt_nil] at hr
  refine .inl ⟨fun {r b} hr => ⟨[], ?_, by simp⟩, fun {r r' b b'} hr hr' he => ?_⟩
  · rw [List.append_nil, ← hr]
    by_cases hpr : p <+: r
    · obtain ⟨t, rfl⟩ := hpr
      rw [relocate_append, fileAt_congr (entryAt_move_append hc t)]
    · have hqr : ¬ q <+: r := by
        rintro ⟨t, rfl⟩
        exact hc.2.1.not_mem (hmem hr) (hne hr) rfl
      rw [relocate_of_not_below hpr, fileAt_congr (entryAt_move_of_not_below hpr hqr)]
  · exact relocate_injOn hc (hmem hr) (hmem hr') (hne hr) (hne hr') he

end KeepsFiles

/-- Files are kept when something is added to one of them, or written to a new one. -/
theorem keepsFiles_changeFile_append {grows : Prop} (hg : grows) {cwd : CurrentDirectory}
    {path : Text} {more : Bytes} (hc : fs.changeFile cwd path (· ++ more) = .ok gs) :
    fs.KeepsFiles grows id gs := by
  obtain ⟨found, p, old, -, -, rfl, hold | ⟨hfree, -⟩⟩ := exists_place_of_changeFile hc
  · exact .append hg (fileAt_eq_some_iff.2 hold) more
  · exact .put hfree _

/-! ## What the files hold -/

/-- The regular files, each with its location. -/
def files (fs : FileSystem) : List (Location × Bytes) :=
  fs.entries.filterMap fun x =>
    match x.2 with
    | .file bytes => some (x.1, bytes)
    | _ => none

/-- What the regular files hold, as often as they do. -/
def contents (fs : FileSystem) : Multiset Bytes := Multiset.ofList (fs.files.map Prod.snd)

theorem mem_files : (p, bytes) ∈ fs.files ↔ fs.fileAt p = some bytes := by
  rw [files, List.mem_filterMap, fileAt_eq_some_iff]
  constructor
  · rintro ⟨⟨q, e⟩, hx, he⟩
    cases e with
    | file b =>
      obtain ⟨rfl, rfl⟩ : q = p ∧ b = bytes := by simpa using he
      exact entryAt_of_mem hx
    | directory => simp at he
    | link target => simp at he
  · intro he
    have h0 : p ≠ [] := by
      rintro rfl
      simp [entryAt_nil] at he
    exact ⟨(p, .file bytes), (entryAt_eq_some_iff h0).1 he, rfl⟩

theorem nodup_files (fs : FileSystem) : fs.files.Nodup := by
  have hn : fs.entries.Nodup := List.Nodup.of_map _ fs.isTree.nodup
  refine hn.filterMap fun x y z hx hy => ?_
  obtain ⟨p, e⟩ := x
  obtain ⟨q, d⟩ := y
  cases e with
  | file b =>
    cases d with
    | file c =>
      obtain rfl : (p, b) = z := by simpa using hx
      simpa [eq_comm] using hy
    | directory => simp at hy
    | link target => simp at hy
  | directory => simp at hx
  | link target => simp at hx

/-- **What the files hold is still there**, if no file has grown. -/
theorem KeepsFiles.contents_le {f : Location → Location} (h : fs.KeepsFiles False f gs) :
    fs.contents ≤ gs.contents := by
  have hfile {x : Location × Bytes} (hx : x ∈ fs.files) : gs.fileAt (f x.1) = some x.2 := by
    obtain ⟨more, hm, hgrows⟩ := h.fileAt (mem_files.1 hx)
    obtain rfl : more = [] := by simpa using hgrows
    rwa [List.append_nil] at hm
  have hnodup : (fs.files.map fun x => (f x.1, x.2)).Nodup := by
    refine (List.nodup_map_iff_inj_on fs.nodup_files).2 fun x hx y hy he => ?_
    obtain ⟨hf, hb⟩ := Prod.mk.inj he
    exact Prod.ext (h.injOn (mem_files.1 hx) (mem_files.1 hy) hf) hb
  have hsub : (fs.files.map fun x => (f x.1, x.2)).Subperm gs.files := by
    refine List.subperm_of_subset hnodup fun y hy => ?_
    obtain ⟨x, hx, rfl⟩ := List.mem_map.1 hy
    exact mem_files.2 (hfile hx)
  calc fs.contents
      = (Multiset.ofList (fs.files.map fun x => (f x.1, x.2))).map Prod.snd := by
        rw [contents, Multiset.map_coe, List.map_map]
        rfl
    _ ≤ (Multiset.ofList gs.files).map Prod.snd := Multiset.map_le_map (Multiset.coe_le.2 hsub)
    _ = gs.contents := Multiset.map_coe Prod.snd gs.files

end ReplyLedger.FileSystem
