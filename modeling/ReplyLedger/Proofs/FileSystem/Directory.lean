import ReplyLedger.Proofs.FileSystem.Calls
import ReplyLedger.Proofs.FileSystem.Paths
import Mathlib.Data.List.Induction

/-!
# Paths to directories

A path may lead to a directory in any way: from the root or from the current directory, up and down,
and through links (`Leads`). Whatever the way, what the path with one more name leads to is what
stands under that name in the directory (`Leads.find_vacant`, `Leads.find_entry`), so calls about
such a path are calls about the entry. Changes that keep directories and links keep the way
(`Leads.keep`).
-/

namespace ReplyLedger.FileSystem

variable {fs gs : FileSystem} {cwd : CurrentDirectory} {p q : Location}

/-- What stands in a directory stands there under a name. -/
theorem isName_of_entryAt {name : Text} {e : Entry} (he : fs.entryAt (q ++ [name]) = some e) :
    isName name :=
  fs.isTree.isName _ ((entryAt_eq_some_iff (by simp)).1 he) name (by simp)

/-! ## Paths that lead to directories -/

/-- A path leads to a directory. -/
structure Leads (fs : FileSystem) (cwd : CurrentDirectory) (path : FilePath) (q : Location) :
    Prop where
  isProper : path.IsProper
  isDirectory : fs.IsDirectory q
  find_eq : fs.find cwd .followed path.text = .ok (.entry q .directory)

namespace Leads

variable {path : FilePath}

/-- What more names lead to is what they lead to from the directory, in a file system that keeps the
way to it. -/
theorem findNames_append (h : fs.Leads cwd path q) (hk : fs.Keeps gs) (last : LastName)
    (more : List Text) (hm : GoesOn last more) :
    ∃ left, gs.findNames cwd last ⟨path.anchor, path.names ++ more⟩ =
      gs.walk last left q more := by
  have hf := h.find_eq
  rw [find_text h.isProper] at hf
  obtain ⟨anchor, names⟩ := path
  cases anchor with
  | relative =>
    cases cwd with
    | present here => exact walk_append hk hm hf
    | removed above between =>
      simp only [findNames] at hf
      rcases hc : climb .followed between names with _ | rest | error
      · simp [hc] at hf
      · rw [hc] at hf
        simp only [findNames, climb_append hc]
        exact walk_append hk hm hf
      · simp [hc] at hf
  | root => exact walk_append hk hm hf
  | doubleRoot => exact walk_append hk hm hf

/-- Changes that keep directories and links keep the way to a directory. -/
theorem keep (h : fs.Leads cwd path q) (hk : fs.Keeps gs) : gs.Leads cwd path q := by
  refine ⟨h.isProper, hk _ _ h.isDirectory (by simp), ?_⟩
  obtain ⟨left, hleft⟩ := h.findNames_append hk .followed [] (.inl rfl)
  rw [List.append_nil] at hleft
  rw [find_text h.isProper, hleft]
  exact walk_of_advance.1 _ rfl

theorem find_kept (h : fs.Leads cwd path q) :
    ∃ r e, fs.find cwd .kept path.text = .ok (.entry r e) := by
  rcases find_last fs cwd .kept path.text with hf | hd
  · exact ⟨q, .directory, hf.trans h.find_eq⟩
  · generalize fs.find cwd .kept path.text = found at hd
    cases hd with
    | link r target => exact ⟨r, .link target, rfl⟩

/-! ### What stands in the directory -/

variable {name : Text}

/-- The path of a name in a directory leads to what a single step from the directory does. -/
theorem find_child (h : fs.Leads cwd path q) (hp : isPlain name) (last : LastName) :
    ∃ left, fs.find cwd last (path.child name).text = fs.walk last left q [name] := by
  have hne : name ≠ [] := (isPlain_iff.1 hp).1
  obtain ⟨left, hleft⟩ := h.findNames_append (Keeps.refl fs) last [name]
    (.inr ⟨name, List.mem_cons_self, hne⟩)
  exact ⟨left, (find_text (h.isProper.child hp) last).trans hleft⟩

theorem advance_name (hn : isName name) (last : LastName) (here : Location) :
    fs.advance last here [name] =
      match fs.entryAt (here ++ [name]) with
      | none => .arrived (.vacant here name)
      | some .directory => .arrived (.entry (here ++ [name]) .directory)
      | some (.file bytes) => .arrived (.entry (here ++ [name]) (.file bytes))
      | some (.link target) =>
        if last = .kept then .arrived (.entry (here ++ [name]) (.link target))
        else .atLink here target [] := by
  obtain ⟨h0, h1, h2, -, -⟩ := isPlain_iff.1 (isPlain_of_isName hn)
  have hl : isTooLong name = false := by
    simp only [isName, Bool.and_eq_true] at hn
    simpa using hn.2
  rw [advance_cons (by simp [h0, h1]) h2 (by simp [refusesSlash]) hl]
  rcases fs.entryAt (here ++ [name]) with _ | _ | bytes | target
  · rfl
  · rfl
  · rfl
  · by_cases hk : last = .kept <;> simp [hk]

/-- A name that is too long is refused. -/
theorem find_tooLong (h : fs.Leads cwd path q) (hp : isPlain name) (hl : isTooLong name)
    (last : LastName) : fs.find cwd last (path.child name).text = .error .nameTooLong := by
  obtain ⟨left, hleft⟩ := h.find_child hp last
  obtain ⟨h0, h1, h2, -, -⟩ := isPlain_iff.1 hp
  have hadv : fs.advance last q [name] = .refused .nameTooLong :=
    advance_tooLong (by simp [h0, h1]) h2 (by simp [refusesSlash]) hl q
  rw [hleft]
  exact walk_of_advance.2 _ hadv

/-- Where nothing stands, an entry can be made. -/
theorem find_vacant (h : fs.Leads cwd path q) (hn : isName name) (last : LastName)
    (he : fs.entryAt (q ++ [name]) = none) :
    fs.find cwd last (path.child name).text = .ok (.vacant q name) := by
  obtain ⟨left, hleft⟩ := h.find_child (isPlain_of_isName hn) last
  rw [hleft]
  exact walk_of_advance.1 _ (by rw [advance_name hn, he])

/-- What stands under the name is found. -/
theorem find_entry (h : fs.Leads cwd path q) {e : Entry} (last : LastName)
    (he : fs.entryAt (q ++ [name]) = some e) (hl : ∀ target, e ≠ .link target) :
    fs.find cwd last (path.child name).text = .ok (.entry (q ++ [name]) e) := by
  have hn := isName_of_entryAt he
  obtain ⟨left, hleft⟩ := h.find_child (isPlain_of_isName hn) last
  rw [hleft]
  refine walk_of_advance.1 _ ?_
  rw [advance_name hn, he]
  cases e with
  | directory => rfl
  | file bytes => rfl
  | link target => exact absurd rfl (hl target)

/-- The path of a directory in the directory leads to it. -/
theorem child (h : fs.Leads cwd path q) (hd : fs.IsDirectory (q ++ [name])) :
    fs.Leads cwd (path.child name) (q ++ [name]) := by
  have hn := isPlain_of_isName (isName_of_entryAt hd)
  exact ⟨h.isProper.child hn, hd, h.find_entry .followed hd (by simp)⟩

/-- The path of a location leads to the directory there. -/
theorem ofNames {d : Location} (h : fs.IsDirectory d) : fs.Leads cwd (FilePath.ofNames d) d := by
  induction d using List.reverseRecOn with
  | nil =>
    refine ⟨by simp [FilePath.IsProper, FilePath.ofNames], h, ?_⟩
    exact find_ofNames cwd .followed (by simp)
  | append_singleton d name ih =>
    exact (ih (isDirectory_of_entryAt_concat h)).child h

/-! ### Calls about the directory -/

theorem status_eq (h : fs.Leads cwd path q) : fs.status cwd path.text = .ok .directory := by
  rw [status, h.find_eq]
  rfl

theorem makeDirectory_eq (h : fs.Leads cwd path q) :
    fs.makeDirectory cwd path.text = .error .fileExists := by
  obtain ⟨r, e, hk⟩ := h.find_kept
  rw [makeDirectory, hk]
  rfl

theorem listDirectory_eq (h : fs.Leads cwd path q) :
    fs.listDirectory cwd path.text = .ok (fs.namesIn q) := by
  rw [listDirectory, h.find_eq]
  rfl

/-! ### Calls about a name in the directory -/

theorem status_child (h : fs.Leads cwd path q) {e : Entry}
    (he : fs.entryAt (q ++ [name]) = some e) (hl : ∀ target, e ≠ .link target) :
    fs.status cwd (path.child name).text = .ok e := by
  rw [status, h.find_entry .followed he hl]
  rfl

theorem status_vacant (h : fs.Leads cwd path q) (hn : isName name)
    (he : fs.entryAt (q ++ [name]) = none) :
    fs.status cwd (path.child name).text = .error .noEntry := by
  rw [status, h.find_vacant hn .followed he]
  rfl

theorem status_tooLong (h : fs.Leads cwd path q) (hp : isPlain name) (hl : isTooLong name) :
    fs.status cwd (path.child name).text = .error .nameTooLong := by
  rw [status, h.find_tooLong hp hl]
  rfl

theorem readFile_child (h : fs.Leads cwd path q) {bytes : Bytes}
    (he : fs.entryAt (q ++ [name]) = some (.file bytes)) :
    fs.readFile cwd (path.child name).text = .ok bytes := by
  rw [readFile, h.status_child he (by simp)]
  rfl

theorem changeFile_child (h : fs.Leads cwd path q) {bytes : Bytes}
    (he : fs.entryAt (q ++ [name]) = some (.file bytes)) (change : Bytes → Bytes) :
    fs.changeFile cwd (path.child name).text change =
      .ok (fs.put (q ++ [name]) (.file (change bytes))) := by
  rw [changeFile, h.find_entry .made he (by simp)]
  rfl

theorem changeFile_vacant (h : fs.Leads cwd path q) (hn : isName name)
    (he : fs.entryAt (q ++ [name]) = none) (change : Bytes → Bytes) :
    fs.changeFile cwd (path.child name).text change =
      .ok (fs.put (q ++ [name]) (.file (change []))) := by
  rw [changeFile, h.find_vacant hn .made he]
  rfl

theorem makeDirectory_vacant (h : fs.Leads cwd path q) (hn : isName name)
    (he : fs.entryAt (q ++ [name]) = none) :
    fs.makeDirectory cwd (path.child name).text = .ok (fs.put (q ++ [name]) .directory) := by
  rw [makeDirectory, h.find_vacant hn .kept he]
  rfl

theorem unlink_child (h : fs.Leads cwd path q) {bytes : Bytes}
    (he : fs.entryAt (q ++ [name]) = some (.file bytes)) :
    fs.unlink cwd (path.child name).text = .ok (fs.erase (q ++ [name])) := by
  rw [unlink, h.find_entry .kept he (by simp)]
  rfl

theorem unlink_vacant (h : fs.Leads cwd path q) (hn : isName name)
    (he : fs.entryAt (q ++ [name]) = none) :
    fs.unlink cwd (path.child name).text = .error .noEntry := by
  rw [unlink, h.find_vacant hn .kept he]
  rfl

end Leads

/-! ## Changes that keep directories and links -/

/-- Setting an entry where a file or nothing is keeps directories and links. -/
theorem keeps_put {e : Entry} (h : ∀ d, fs.entryAt p = some d → ∃ bytes, d = .file bytes) :
    fs.Keeps (fs.put p e) := by
  intro r d hr hd
  have hrp : r ≠ p := by
    rintro rfl
    obtain ⟨bytes, rfl⟩ := h d hr
    exact hd bytes rfl
  rw [entryAt_put_of_ne e hrp, hr]

/-- The names in a directory are those under which something stands. -/
theorem mem_namesIn {name : Text} :
    name ∈ fs.namesIn q ↔ ∃ e, fs.entryAt (q ++ [name]) = some e := by
  rw [namesIn, List.mem_filterMap]
  constructor
  · rintro ⟨⟨r, e⟩, hx, hn⟩
    split at hn
    · rename_i hr
      obtain ⟨r, rfl⟩ := List.getLast?_eq_some_iff.1 hn
      rw [List.dropLast_concat] at hr
      exact ⟨e, (entryAt_eq_some_iff (by simp)).2 (hr ▸ hx)⟩
    · simp at hn
  · rintro ⟨e, he⟩
    exact ⟨(q ++ [name], e), (entryAt_eq_some_iff (by simp)).1 he, by simp⟩

/-- No name is listed twice. -/
theorem nodup_namesIn (fs : FileSystem) (q : Location) : (fs.namesIn q).Nodup := by
  refine List.Pairwise.filterMap _ (fun x y hne name hx name' hy => ?_)
    (List.pairwise_map.1 fs.isTree.nodup)
  rintro rfl
  split at hx <;> split at hy <;> try contradiction
  rename_i hxq hyq
  obtain ⟨p, hp⟩ := List.getLast?_eq_some_iff.1 hx
  obtain ⟨r, hr⟩ := List.getLast?_eq_some_iff.1 hy
  rw [hp, List.dropLast_concat] at hxq
  rw [hr, List.dropLast_concat] at hyq
  exact hne (by rw [hp, hr, hxq, hyq])

end ReplyLedger.FileSystem
