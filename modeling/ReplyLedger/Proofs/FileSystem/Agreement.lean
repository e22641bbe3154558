import ReplyLedger.Proofs.FileSystem.Calls
import ReplyLedger.Proofs.FileSystem.Links

/-!
# File systems that differ in one file

Two file systems that differ in the bytes of one file at the most (`AgreeBut`) resolve every path in
the same way (`AgreeBut.resolve_eq`), and lead to the same wherever they do not lead to that file
(`AgreeBut.find_eq`). A call about another settled location comes to the same in both, and leaves
file systems that differ in the one file only (`AgreeBut.changeFile` and the lemmas behind it).
-/

namespace ReplyLedger.FileSystem

variable {fs gs : FileSystem} {cwd : CurrentDirectory} {r p q : Location}

/-- The same stands everywhere, but for the bytes of the file at `r`. -/
structure AgreeBut (r : Location) (fs gs : FileSystem) : Prop where
  entryAt_eq : ∀ q, q ≠ r → fs.entryAt q = gs.entryAt q
  left : ∃ bytes, fs.entryAt r = some (.file bytes)
  right : ∃ bytes, gs.entryAt r = some (.file bytes)

namespace AgreeBut

theorem symm (h : AgreeBut r fs gs) : AgreeBut r gs fs :=
  ⟨fun q hq => (h.entryAt_eq q hq).symm, h.right, h.left⟩

theorem trans {hs : FileSystem} (h : AgreeBut r fs gs) (h' : AgreeBut r gs hs) :
    AgreeBut r fs hs :=
  ⟨fun q hq => (h.entryAt_eq q hq).trans (h'.entryAt_eq q hq), h.left, h'.right⟩

/-- What is no file stands in both. -/
theorem entryAt_eq_some (h : AgreeBut r fs gs) {e : Entry} (he : ∀ bytes, e ≠ .file bytes)
    (hq : fs.entryAt q = some e) : gs.entryAt q = some e := by
  by_cases hr : q = r
  · subst hr
    obtain ⟨bytes, hb⟩ := h.left
    exact absurd (Option.some.inj (hq.symm.trans hb)) (he bytes)
  · exact (h.entryAt_eq q hr).symm.trans hq

theorem isDirectory_iff (h : AgreeBut r fs gs) : fs.IsDirectory q ↔ gs.IsDirectory q :=
  ⟨h.entryAt_eq_some (by simp), h.symm.entryAt_eq_some (by simp)⟩

theorem sameLinks (h : AgreeBut r fs gs) : fs.SameLinks gs := fun _ _ =>
  ⟨h.entryAt_eq_some (by simp), h.symm.entryAt_eq_some (by simp)⟩

/-! ### Following paths -/

/-- Names lead equally far, unless they lead to the file. -/
theorem advance_eq_or (h : AgreeBut r fs gs) (last : LastName) (segments : List Text)
    (here : Location) :
    fs.advance last here segments = gs.advance last here segments ∨
      ∃ b c, fs.advance last here segments = .arrived (.entry r (.file b)) ∧
        gs.advance last here segments = .arrived (.entry r (.file c)) := by
  induction segments generalizing here with
  | nil => exact .inl rfl
  | cons s rest ih =>
    rw [advance, advance]
    split
    · exact ih here
    · split
      · exact ih here.dropLast
      · split
        · exact .inl rfl
        · split
          · exact .inl rfl
          · by_cases hr : here ++ [s] = r
            · obtain ⟨b, hb⟩ := h.left
              obtain ⟨c, hc⟩ := h.right
              rw [hr, hb, hc]
              by_cases hrest : rest = []
              · exact .inr ⟨b, c, by simp [hrest], by simp [hrest]⟩
              · exact .inl (by simp [hrest])
            · rw [h.entryAt_eq _ hr]
              rcases gs.entryAt (here ++ [s]) with _ | _ | bytes | target
              · exact .inl rfl
              · exact ih (here ++ [s])
              · exact .inl rfl
              · exact .inl rfl

/-- A walk leads to the same, unless it leads to the file. -/
theorem walk_eq_or (h : AgreeBut r fs gs) (last : LastName) (links : Nat) (here : Location)
    (segments : List Text) :
    fs.walk last links here segments = gs.walk last links here segments ∨
      ∃ b c, fs.walk last links here segments = .ok (.entry r (.file b)) ∧
        gs.walk last links here segments = .ok (.entry r (.file c)) := by
  induction links generalizing here segments with
  | zero =>
    rcases h.advance_eq_or last segments here with ha | ⟨b, c, hb, hc⟩
    · rw [walk, walk, ha]
      exact .inl rfl
    · exact .inr ⟨b, c, walk_of_advance.1 _ hb, walk_of_advance.1 _ hc⟩
  | succ links ih =>
    rcases h.advance_eq_or last segments here with ha | ⟨b, c, hb, hc⟩
    · rw [walk, walk, ha]
      rcases gs.advance last here segments with found | error | ⟨directory, target, rest⟩
      · exact .inl rfl
      · exact .inl rfl
      · exact ih _ _
    · exact .inr ⟨b, c, walk_of_advance.1 _ hb, walk_of_advance.1 _ hc⟩

theorem find_eq_or (h : AgreeBut r fs gs) (cwd : CurrentDirectory) (last : LastName)
    (path : Text) :
    fs.find cwd last path = gs.find cwd last path ∨
      ∃ b c, fs.find cwd last path = .ok (.entry r (.file b)) ∧
        gs.find cwd last path = .ok (.entry r (.file c)) := by
  unfold find
  split
  · exact .inl rfl
  · split
    · exact h.walk_eq_or last maxLinks [] _
    · split
      · exact h.walk_eq_or last maxLinks _ _
      · split
        · exact .inl rfl
        · exact h.walk_eq_or last maxLinks _ _
        · exact .inl rfl

/-- The path of another settled location leads to the same. -/
theorem find_eq (h : AgreeBut r fs gs) (cwd : CurrentDirectory) (last : LastName)
    (hp : fs.Settled p) (hr : p ≠ r) :
    fs.find cwd last (FilePath.ofNames p).text = gs.find cwd last (FilePath.ofNames p).text := by
  rcases h.find_eq_or cwd last (FilePath.ofNames p).text with he | ⟨b, c, hb, -⟩
  · exact he
  · have hs := sighting_find cwd last hp
    rw [hb] at hs
    cases hs
    exact absurd rfl hr

/-- Every path is resolved in the same way. -/
theorem resolve_eq (h : AgreeBut r fs gs) (segments : List Text) :
    fs.resolve segments = gs.resolve segments := by
  have hsettle (path : FilePath) : fs.settle path = gs.settle path := by
    rw [settle, settle]
    rcases h.walk_eq_or .followed maxLinks [] path.names with he | ⟨b, c, hb, hc⟩
    · rw [he]
    · rw [hb, hc]
  unfold resolve
  rw [resolution_congr h.sameLinks]
  split
  · exact hsettle _
  · exact hsettle _
  · rfl

/-! ### Changes -/

theorem accepts_iff (h : AgreeBut r fs gs) : fs.Accepts p ↔ gs.Accepts p :=
  ⟨fun ha => ⟨ha.ne_nil, h.isDirectory_iff.1 ha.parent, fun hd => ha.free (h.isDirectory_iff.2 hd),
      ha.isName_getLast⟩,
    fun ha => ⟨ha.ne_nil, h.isDirectory_iff.2 ha.parent, fun hd => ha.free (h.isDirectory_iff.1 hd),
      ha.isName_getLast⟩⟩

theorem canMove_iff (h : AgreeBut r fs gs) : fs.CanMove p q ↔ gs.CanMove p q :=
  and_congr_right' (and_congr_left' h.accepts_iff)

theorem put (h : AgreeBut r fs gs) (hp : p ≠ r) (e : Entry) :
    AgreeBut r (fs.put p e) (gs.put p e) := by
  refine ⟨fun q hq => ?_, ?_, ?_⟩
  · by_cases ha : fs.Accepts p
    · rw [entryAt_put ha, entryAt_put (h.accepts_iff.1 ha), h.entryAt_eq q hq]
    · rw [FileSystem.put, dif_neg ha, FileSystem.put, dif_neg (mt h.accepts_iff.2 ha),
        h.entryAt_eq q hq]
  · rw [entryAt_put_of_ne e hp.symm]
    exact h.left
  · rw [entryAt_put_of_ne e hp.symm]
    exact h.right

theorem erase (h : AgreeBut r fs gs) (hp : p ≠ r) : AgreeBut r (fs.erase p) (gs.erase p) := by
  refine ⟨fun q hq => ?_, ?_, ?_⟩
  · by_cases hd : fs.IsDirectory p
    · have hd' := h.isDirectory_iff.1 hd
      rw [FileSystem.erase, dif_neg (by simpa using hd), FileSystem.erase,
        dif_neg (by simpa using hd'), h.entryAt_eq q hq]
    · rw [entryAt_erase hd, entryAt_erase (mt h.isDirectory_iff.2 hd), h.entryAt_eq q hq]
  · rw [entryAt_erase_of_ne hp.symm]
    exact h.left
  · rw [entryAt_erase_of_ne hp.symm]
    exact h.right

theorem move (h : AgreeBut r fs gs) (hp : ¬ p <+: r) (hq : ¬ q <+: r) :
    AgreeBut r (fs.move p q) (gs.move p q) := by
  refine ⟨fun u hu => ?_, ?_, ?_⟩
  · by_cases hc : fs.CanMove p q
    · have hc' := h.canMove_iff.1 hc
      by_cases hqu : q <+: u
      · obtain ⟨t, rfl⟩ := hqu
        rw [entryAt_move_append hc, entryAt_move_append hc']
        refine h.entryAt_eq _ ?_
        rintro rfl
        exact hp (List.prefix_append p t)
      · rw [entryAt_move hc hqu, entryAt_move hc' hqu, h.entryAt_eq u hu]
    · rw [FileSystem.move, dif_neg hc, FileSystem.move, dif_neg (mt h.canMove_iff.2 hc),
        h.entryAt_eq u hu]
  · rw [entryAt_move_of_not_below hp hq]
    exact h.left
  · rw [entryAt_move_of_not_below hp hq]
    exact h.right

/-! ### Calls -/

/-- A call that changes the files comes to the same. -/
def Results (r : Location) : Except Errno FileSystem → Except Errno FileSystem → Prop
  | .ok fs, .ok gs => AgreeBut r fs gs
  | .error e, .error e' => e = e'
  | _, _ => False

theorem changeFile (h : AgreeBut r fs gs) (hp : fs.Settled p) (hr : p ≠ r)
    (change : Bytes → Bytes) :
    Results r (fs.changeFile cwd (FilePath.ofNames p).text change)
      (gs.changeFile cwd (FilePath.ofNames p).text change) := by
  have hs := sighting_find cwd .made hp
  simp only [FileSystem.changeFile, ← h.find_eq cwd .made hp hr]
  generalize fs.find cwd .made (FilePath.ofNames p).text = found at hs
  cases hs with
  | @entry e he =>
    rcases e with _ | bytes | target
    · exact rfl
    · exact h.put hr _
    · exact rfl
  | vacant hd hn hp =>
    subst hp
    exact h.put hr _
  | refused => exact rfl

theorem makeDirectory (h : AgreeBut r fs gs) (hp : fs.Settled p) (hr : p ≠ r) :
    Results r (fs.makeDirectory cwd (FilePath.ofNames p).text)
      (gs.makeDirectory cwd (FilePath.ofNames p).text) := by
  have hs := sighting_find cwd .kept hp
  simp only [FileSystem.makeDirectory, ← h.find_eq cwd .kept hp hr]
  generalize fs.find cwd .kept (FilePath.ofNames p).text = found at hs
  cases hs with
  | entry he => exact rfl
  | vacant hd hn hp =>
    subst hp
    exact h.put hr _
  | refused => exact rfl

theorem unlink (h : AgreeBut r fs gs) (hp : fs.Settled p) (hr : p ≠ r) :
    Results r (fs.unlink cwd (FilePath.ofNames p).text)
      (gs.unlink cwd (FilePath.ofNames p).text) := by
  have hs := sighting_find cwd .kept hp
  simp only [FileSystem.unlink, ← h.find_eq cwd .kept hp hr]
  generalize fs.find cwd .kept (FilePath.ofNames p).text = found at hs
  cases hs with
  | @entry e he =>
    rcases e with _ | bytes | target
    · exact rfl
    · exact h.erase hr
    · exact h.erase hr
  | vacant => exact rfl
  | refused => exact rfl

theorem status_eq (h : AgreeBut r fs gs) (cwd : CurrentDirectory) (hp : fs.Settled p)
    (hr : p ≠ r) :
    fs.status cwd (FilePath.ofNames p).text = gs.status cwd (FilePath.ofNames p).text := by
  rw [status, status, h.find_eq cwd .followed hp hr]

theorem readFile_eq (h : AgreeBut r fs gs) (cwd : CurrentDirectory) (hp : fs.Settled p)
    (hr : p ≠ r) :
    fs.readFile cwd (FilePath.ofNames p).text = gs.readFile cwd (FilePath.ofNames p).text := by
  rw [readFile, readFile, h.status_eq cwd hp hr]

theorem relocateAll_eq (h : AgreeBut r fs gs) (cwd : CurrentDirectory) (hp : fs.Settled p)
    (hpr : p ≠ r) (hq : fs.Settled q) (hqr : q ≠ r) :
    fs.relocateAll cwd (FilePath.ofNames p).text (FilePath.ofNames q).text =
      gs.relocateAll cwd (FilePath.ofNames p).text (FilePath.ofNames q).text := by
  simp only [relocateAll, rename, h.find_eq cwd .kept hp hpr, h.find_eq cwd .kept hq hqr]

end AgreeBut

end ReplyLedger.FileSystem
