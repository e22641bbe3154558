import ReplyLedger.Proofs.Host.Journal
import ReplyLedger.Proofs.Text.Spelling

/-!
# Text files

A text that is written is read again as it is, with its line ends, NUL characters and marks at the
beginning; a file is read exactly if its bytes are well-formed UTF-8, and the text of it, written
back, leaves the files as they are (`exact_textFiles`).

A call that only looks and one that writes treat a slash at the end of a path differently, but not
where there is a file to read: no slash comes after its name, nor after that of a link to it
(`find_made`).
-/

namespace ReplyLedger

open FileSystem Utf8

namespace FileSystem

variable {fs : FileSystem} {cwd : CurrentDirectory} {here p : Location} {bytes : Bytes}
  {segments : List Text}

/-! ## A slash at the end -/

theorem getLast?_cons_eq {s : Text} {rest : List Text} (h : rest ≠ []) :
    (s :: rest).getLast? = rest.getLast? := by
  obtain ⟨u, r, rfl⟩ := List.exists_cons_of_ne_nil h
  exact List.getLast?_cons_cons

/-- Segments with a slash at their end lead to no file, and neither does what is left of them after
a link. -/
theorem advance_of_slash (hs : segments.getLast? = some []) (here : Location) :
    fs.advance .followed here segments ≠ .arrived (.entry p (.file bytes)) ∧
      ∀ directory target rest, fs.advance .followed here segments = .atLink directory target rest →
        rest.getLast? = some [] := by
  induction segments generalizing here with
  | nil => simp at hs
  | cons s rest ih =>
    by_cases h0 : s = [] ∨ s = ['.']
    · rw [advance_stay h0]
      by_cases hr : rest = []
      · subst hr
        exact ⟨by simp [advance], fun _ _ _ h => by simp [advance] at h⟩
      · exact ih (by rwa [getLast?_cons_eq hr] at hs) here
    have hr : rest ≠ [] := by
      rintro rfl
      exact h0 (.inl (Option.some.inj hs))
    rw [getLast?_cons_eq hr] at hs
    by_cases h2 : s = ['.', '.']
    · subst h2
      rw [advance_up]
      exact ih hs here.dropLast
    by_cases hl : isTooLong s
    · rw [advance_tooLong h0 h2 rfl hl]
      exact ⟨by simp, fun _ _ _ h => by simp at h⟩
    have hl : isTooLong s = false := by simpa using hl
    rw [advance_cons h0 h2 rfl hl]
    rcases fs.entryAt (here ++ [s]) with _ | _ | old | target
    · simp [hr]
    · exact ih hs (here ++ [s])
    · simp [hr]
    · simp only [hr, decide_false, Bool.false_and]
      refine ⟨by simp, fun directory target' rest' h => ?_⟩
      obtain ⟨-, -, rfl⟩ : here = directory ∧ target = target' ∧ rest = rest' := by simpa using h
      exact hs

theorem walk_of_slash (hs : segments.getLast? = some []) (links : Nat) (here : Location) :
    fs.walk .followed links here segments ≠ .ok (.entry p (.file bytes)) := by
  fun_induction walk fs .followed links here segments with
  | case1 links here segments found hadv =>
    intro h
    obtain rfl := Except.ok.inj h
    exact (advance_of_slash hs here).1 hadv
  | case2 => simp
  | case3 => simp
  | case4 here segments directory target rest hadv links ih =>
    refine ih ?_
    obtain ⟨-, hlink⟩ : fs.advance .followed here segments ≠ .arrived (.entry p (.file bytes)) ∧ _ :=
      advance_of_slash hs here
    have hrest := hlink directory target rest hadv
    have hne : rest ≠ [] := by
      rintro rfl
      simp at hrest
    rw [List.getLast?_append_of_ne_nil _ hne, hrest]

/-- Without a slash at their end, segments are looked up by a call that writes as they are by one
that looks. -/
theorem advance_made (hs : segments.getLast? ≠ some []) (here : Location) :
    fs.advance .made here segments = fs.advance .followed here segments := by
  induction segments generalizing here with
  | nil => rfl
  | cons s rest ih =>
    have hrest : rest.getLast? ≠ some [] := by
      by_cases hr : rest = []
      · simp [hr]
      · rwa [getLast?_cons_eq hr] at hs
    have hslash : refusesSlash .made rest = false := by
      rcases hr : refusesSlash .made rest with _ | _
      · rfl
      · rw [refusesSlash, Bool.and_eq_true, Bool.and_eq_true, List.all_eq_true] at hr
        have hne : rest ≠ [] := by simpa using hr.1.2
        have hlast := hr.2 _ (List.getLast_mem hne)
        rw [List.getLast?_eq_some_getLast hne, List.isEmpty_iff.1 hlast] at hrest
        exact absurd rfl hrest
    by_cases h0 : s = [] ∨ s = ['.']
    · rw [advance_stay h0, advance_stay h0]
      exact ih hrest here
    by_cases h2 : s = ['.', '.']
    · subst h2
      rw [advance_up, advance_up]
      exact ih hrest here.dropLast
    by_cases hl : isTooLong s
    · rw [advance_tooLong h0 h2 hslash hl, advance_tooLong h0 h2 rfl hl]
    have hl : isTooLong s = false := by simpa using hl
    rw [advance_cons h0 h2 hslash hl, advance_cons h0 h2 rfl hl]
    rcases fs.entryAt (here ++ [s]) with _ | _ | old | target
    · rfl
    · exact ih hrest (here ++ [s])
    · rfl
    · simp

theorem walk_made {links : Nat}
    (h : fs.walk .followed links here segments = .ok (.entry p (.file bytes))) :
    fs.walk .made links here segments = .ok (.entry p (.file bytes)) := by
  have hs : segments.getLast? ≠ some [] := fun hs => walk_of_slash hs links here h
  have ha : fs.advance .made here segments = _ := advance_made hs here
  fun_induction walk fs .followed links here segments with
  | case1 links here segments found hadv =>
    rw [hadv] at ha
    exact (walk_of_advance.1 _ ha).trans h
  | case2 => simp at h
  | case3 => simp at h
  | case4 here segments directory target rest hadv links ih =>
    rw [hadv] at ha
    rw [walk, ha]
    have hs' := fun hs => walk_of_slash hs links _ h
    exact ih h hs' (advance_made hs' _)

/-- **A path that leads to a file leads to it also if the file is to be written.** -/
theorem find_made {path : Text} (h : fs.find cwd .followed path = .ok (.entry p (.file bytes))) :
    fs.find cwd .made path = .ok (.entry p (.file bytes)) := by
  unfold find at h ⊢
  split at h
  · simp at h
  · rename_i h0
    rw [if_neg h0]
    split at h
    · rename_i hrooted
      rw [if_pos hrooted]
      exact walk_made h
    · rename_i hrooted
      rw [if_neg hrooted]
      split at h
      · exact walk_made h
      · rename_i above between
        rcases hc : climb .followed between (segmentsOf path) with _ | rest | error
        · simp [hc] at h
        · have hmade := climb_append hc .made []
          rw [List.append_nil, List.append_nil] at hmade
          simp only [hc] at h
          simp only [hmade]
          exact walk_made h
        · simp [hc] at h

/-- Bytes that are read are those of a file that the path leads to. -/
theorem exists_find_of_readFile {path : Text} (h : fs.readFile cwd path = .ok bytes) :
    ∃ p, fs.find cwd .followed path = .ok (.entry p (.file bytes)) := by
  simp only [readFile, status] at h
  rcases hf : fs.find cwd .followed path with
    error | (⟨p, _ | old | target⟩ | ⟨directory, name⟩ | _)
  · simp [hf, bind, Except.bind] at h
  · simp [hf, bind, Except.bind, pure, Except.pure] at h
  · simp only [hf, bind, Except.bind, pure, Except.pure] at h
    obtain rfl := Except.ok.inj h
    exact ⟨p, rfl⟩
  · simp [hf, bind, Except.bind, pure, Except.pure] at h
  · simp [hf, bind, Except.bind] at h
  · simp [hf, bind, Except.bind, pure, Except.pure] at h

end FileSystem

namespace Action

variable {h h' : Host} {path t : Text} {b : Bytes}

/-! ## Writing and reading -/

/-- A path leads to a file, or to a free place for one. -/
def LeadsToPlace (h : Host) (path : Text) : Prop :=
  hasNul path = false ∧
    ∃ found p, h.files.find h.cwd .made path = .ok found ∧ found.place = some p

/-- A path leads to a file with these bytes. -/
def LeadsToBytes (h : Host) (path : Text) (b : Bytes) : Prop :=
  hasNul path = false ∧ h.files.readFile h.cwd path = .ok b

/-- A text is written wherever there is a place for a file, and nowhere else. -/
theorem writeText_ok_iff :
    (∃ h', outcome (writeText path t) h = (.ok (), h')) ↔ LeadsToPlace h path := by
  rw [writeText]
  constructor
  · rintro ⟨h', ho⟩
    rcases hn : hasNul path with _ | _
    · rw [outcome_change hn] at ho
      rcases hc : h.files.changeFile h.cwd path (fun _ => encode t) with error | files
      · simp [hc] at ho
      · obtain ⟨found, p, old, hf, hp, -, -⟩ := exists_place_of_changeFile hc
        exact ⟨hn, found, p, hf, hp⟩
    · rw [outcome_change_of_hasNul hn] at ho
      simp at ho
  · rintro ⟨hn, found, p, hf, hp⟩
    have ho := outcome_change hn
      (fun files cwd => files.changeFile cwd path fun _ => encode t) h
    simp only [changeFile_of_place hf hp] at ho
    exact ⟨_, ho⟩

/-- What has been written is read. -/
theorem readText_of_writeText (hc : h.cwd.IsIn h.files) (hl : h.files.LinksHaveNoNul)
    (ho : outcome (writeText path t) h = (.ok (), h')) :
    LeadsToBytes h' path (encode t) ∧ outcome (readText path) h' = (.ok t, h') := by
  obtain ⟨hn, -⟩ := writeText_ok_iff.1 ⟨h', ho⟩
  rw [writeText, outcome_change hn] at ho
  rcases hw : h.files.changeFile h.cwd path (fun _ => encode t) with error | files
  · simp [hw] at ho
  · rw [hw] at ho
    obtain rfl := (Prod.mk.inj ho).2
    have hr := readFile_of_changeFile hl hc hn hw
    exact ⟨⟨hn, hr⟩, outcome_readText_of_decode hn hr (decode_encode t)⟩

/-- A file is read as the decoder reads its bytes. -/
theorem LeadsToBytes.outcome_readText (hb : LeadsToBytes h path b) :
    outcome (readText path) h = ((decode b).mapError .undecodable, h) := by
  rw [readText, readTextWith, outcome_bind_of_ok (outcome_call_of_ok hb.1 hb.2), decodeWith]
  cases decode b <;> rfl

/-- Writing back what has been read changes nothing. -/
theorem LeadsToBytes.writeText (hb : LeadsToBytes h path b) (ht : encode t = b) :
    ∃ files, outcome (writeText path t) h = (.ok (), { h with files }) ∧
      LeadsToBytes { h with files } path b ∧ ∀ q, files.entryAt q = h.files.entryAt q := by
  obtain ⟨hn, hr⟩ := hb
  obtain ⟨p, hf⟩ := exists_find_of_readFile hr
  have he : h.files.entryAt p = some (.file b) := entryAt_of_find hf rfl
  have ha : h.files.Accepts p := accepts_of_entryAt he (by simp)
  have hput (q : Location) : (h.files.put p (.file b)).entryAt q = h.files.entryAt q := by
    rw [entryAt_put ha]
    split
    · rename_i hq
      rw [hq, he]
    · rfl
  refine ⟨h.files.put p (.file b), ?_, ⟨hn, ?_⟩, hput⟩
  · rw [Action.writeText, outcome_change hn, changeFile_of_place (find_made hf) rfl, ht]
  · have hk : h.files.Keeps (h.files.put p (.file b)) := fun r e hre _ => (hput r).trans hre
    rw [readFile, status, find_of_place hk ((hput p).trans he) (by simp) hf rfl]
    rfl

/-- Making directories leaves the current directory in the tree, and makes no links. -/
theorem isIn_of_ensureDirectories {above : FilePath} (hc : h.cwd.IsIn h.files)
    (hl : h.files.LinksHaveNoNul) (ho : outcome (ensureDirectories above) h = (.ok (), h')) :
    h'.cwd.IsIn h'.files ∧ h'.files.LinksHaveNoNul := by
  obtain ⟨hgains, hcwd⟩ := gains_ensureDirectories above h
  rw [ho] at hgains hcwd
  dsimp only at hgains hcwd
  refine ⟨?_, fun p target hp => hl p target ((hgains.sameLinks p target).2 hp)⟩
  rw [hcwd]
  revert hc
  cases h.cwd with
  | present q => exact fun hc => hgains.entryAt_eq hc
  | removed q between => exact fun hc => hgains.entryAt_eq hc

/-- **Text files are exact.** A text can be written wherever there is a place for a file, and is
read as it has been written, also if the directories above had to be made. A file is read exactly if
its bytes are well-formed; written back, its text leaves every file as it was, and if it is not read,
the report says where the bytes stop to be well-formed. -/
theorem exact_textFiles (hc : h.cwd.IsIn h.files) (hl : h.files.LinksHaveNoNul) (path : Text) :
    (∀ t, (∃ h', outcome (writeText path t) h = (.ok (), h')) ↔ LeadsToPlace h path) ∧
    (∀ t h', outcome (writeText path t) h = (.ok (), h') →
      outcome (readText path) h' = (.ok t, h')) ∧
    (∀ above t h', outcome (do ensureDirectories above; writeText path t) h = (.ok (), h') →
      outcome (readText path) h' = (.ok t, h')) ∧
    ∀ b, LeadsToBytes h path b →
      ((∃ t h', outcome (readText path) h = (.ok t, h')) ↔ IsWellFormed b) ∧
      (∀ t h', outcome (readText path) h = (.ok t, h') → h' = h ∧
        ∃ files, outcome (writeText path t) h = (.ok (), { h with files }) ∧
          LeadsToBytes { h with files } path b ∧ ∀ q, files.entryAt q = h.files.entryAt q) ∧
      (¬ IsWellFormed b → ∃ fault good rest,
        outcome (readText path) h = (.error (.undecodable fault), h) ∧
        IsWellFormed good ∧ b = good ++ fault.piece ++ rest ∧ fault.piece ≠ [] ∧
        fault.position = good.length) := by
  refine ⟨fun t => writeText_ok_iff, fun t h' ho => (readText_of_writeText hc hl ho).2, ?_, ?_⟩
  · intro above t h' ho
    obtain ⟨⟨⟩, k, hmade, hwritten⟩ := exists_of_outcome_bind ho
    obtain ⟨hck, hlk⟩ := isIn_of_ensureDirectories hc hl hmade
    exact (readText_of_writeText hck hlk hwritten).2
  · intro b hb
    have hread := hb.outcome_readText
    rw [isWellFormed_iff_decode]
    rcases hd : decode b with fault | t
    · rw [hd] at hread
      obtain ⟨good, rest, hgood, happend, hpiece, hposition⟩ := eq_append_of_decode hd
      rw [hread]
      have hnone (t : Text) : (Except.error fault).mapError Failure.undecodable ≠ .ok t := by
        simp [Except.mapError]
      refine ⟨by simp [hnone], fun t h' ho => absurd (Prod.mk.inj ho).1 (hnone t), fun _ => ?_⟩
      exact ⟨fault, good, rest, rfl, hgood, happend, hpiece, hposition⟩
    · rw [hd] at hread
      rw [hread]
      refine ⟨by simp [Except.mapError], fun t' h' ho => ?_, fun hn => absurd ⟨t, rfl⟩ hn⟩
      obtain ⟨ht, rfl⟩ := Prod.mk.inj ho
      obtain rfl : t = t' := Except.ok.inj ht
      exact ⟨rfl, hb.writeText (encode_of_decode hd)⟩

/-! ## Line ends of all kinds -/

/-- A link to a file with a letter and the three bytes that a surrogate would have. -/
def surrogateHost : Host := .ofFiles <|
  ((FileSystem.empty.put [['d']] .directory).put [['d'], ['f']]
    (.file [0x61, 0xED, 0xA0, 0x80])).put [['l']] (.link ['d', '/', 'f'])

/-- A text with line ends of all kinds, a byte-order mark, a NUL character, and characters of one to
four bytes. -/
def mixedText : Text :=
  ['\uFEFF', 'a', '\r', '\n', 'ж', '\r', '語', '\n', '\x00', '𝄞', '\r', '\r', '\n']

theorem linksHaveNoNul_surrogateHost : surrogateHost.files.LinksHaveNoNul := by
  intro p target hp
  have hlinks : ∀ x ∈ surrogateHost.files.entries, x.2 = .directory ∨
      x.2 = .file [0x61, 0xED, 0xA0, 0x80] ∨ x.2 = .link ['d', '/', 'f'] := by decide +kernel
  have hp0 : p ≠ [] := by
    rintro rfl
    simp [entryAt_nil] at hp
  rcases hlinks _ ((entryAt_eq_some_iff hp0).1 hp) with h | h | h
  · simp at h
  · simp at h
  · obtain rfl := Entry.link.inj h
    decide

/-- The file is not read. The text, written to it through the link, is read. -/
theorem exact_textFiles_surrogateHost :
    surrogateHost.cwd.IsIn surrogateHost.files ∧ surrogateHost.files.LinksHaveNoNul ∧
      (∃ fault, fault.position = 1 ∧
        outcome (readText ['l']) surrogateHost = (.error (.undecodable fault), surrogateHost)) ∧
      ∃ h', outcome (writeText ['l'] mixedText) surrogateHost = (.ok (), h') ∧
        outcome (readText ['l']) h' = (.ok mixedText, h') := by
  have hin : surrogateHost.cwd.IsIn surrogateHost.files := surrogateHost.files.isDirectory_nil
  have hbytes : LeadsToBytes surrogateHost ['l'] [0x61, 0xED, 0xA0, 0x80] :=
    ⟨by decide, by decide +kernel⟩
  have hdecode : decode [0x61, 0xED, 0xA0, 0x80] = .error ⟨1, [0xED], .invalidContinuation⟩ := by
    decide +kernel
  have hbroken : ¬ IsWellFormed [0x61, 0xED, 0xA0, 0x80] := by
    simp [isWellFormed_iff_decode, hdecode]
  have hplace : LeadsToPlace surrogateHost ['l'] :=
    ⟨hbytes.1, .entry [['d'], ['f']] (.file [0x61, 0xED, 0xA0, 0x80]), [['d'], ['f']],
      by decide +kernel, rfl⟩
  obtain ⟨hwrites, hreads, -, hfile⟩ := exact_textFiles hin linksHaveNoNul_surrogateHost ['l']
  refine ⟨hin, linksHaveNoNul_surrogateHost, ?_, ?_⟩
  · obtain ⟨fault, good, rest, hread, -⟩ := (hfile _ hbytes).2.2 hbroken
    have hfault := hbytes.outcome_readText
    rw [hdecode, hread] at hfault
    obtain rfl := Failure.undecodable.inj (Except.error.inj (Prod.mk.inj hfault).1)
    exact ⟨_, rfl, hread⟩
  · obtain ⟨h', hwrite⟩ := (hwrites mixedText).2 hplace
    exact ⟨h', hwrite, hreads mixedText h' hwrite⟩

end Action

end ReplyLedger
