import ReplyLedger.Proofs.FileSystem.Directory
import ReplyLedger.Proofs.Host.Outcome
import ReplyLedger.Proofs.Text.Utf8

/-!
# Actions about a directory

What reading, writing, removing and making come to at the path of a directory and at the paths of the
names in it, however the path leads to the directory. None of them fails unless something stands in
the way, and each changes the one entry that it is about.
-/

namespace ReplyLedger.Action

open FileSystem

variable {h : Host} {path : FilePath} {q : Location} {name : Text}

/-! ## The directory itself -/

theorem outcome_status?_directory (hl : h.files.Leads h.cwd path q) :
    outcome (status? path.text) h = (.ok (some .directory), h) :=
  outcome_status?_of_status (FilePath.hasNul_text hl.isProper) hl.status_eq

theorem outcome_isDirectory (hl : h.files.Leads h.cwd path q) :
    outcome (isDirectory path.text) h = (.ok true, h) := by
  rw [isDirectory, outcome_bind_of_ok (outcome_status?_directory hl)]
  rfl

theorem outcome_makeDirectory (hl : h.files.Leads h.cwd path q) :
    outcome (makeDirectory path.text) h = (.error (.system .fileExists path.text), h) := by
  rw [makeDirectory, outcome_change (FilePath.hasNul_text hl.isProper), hl.makeDirectory_eq]

/-- A directory that can be made at once is made, and nothing above it. -/
theorem outcome_ensureDirectories {path : FilePath} {h h' : Host}
    (he : outcome (ensureDirectory path.text) h = (.ok (), h')) :
    outcome (ensureDirectories path) h = (.ok (), h') := by
  obtain ⟨anchor, names⟩ := path
  rw [ensureDirectories]
  rcases hr : names.reverse with _ | ⟨name, above⟩
  · rw [List.reverse_eq_nil_iff.1 hr] at he
    exact he
  · have hnames : (name :: above).reverse = names := by rw [← hr, List.reverse_reverse]
    rw [ensureDirectoriesFrom, outcome_rescue]
    simp only [hnames, he]

/-- A directory that is there is not made again. -/
theorem outcome_ensureDirectories_present (hl : h.files.Leads h.cwd path q) :
    outcome (ensureDirectories path) h = (.ok (), h) := by
  refine outcome_ensureDirectories ?_
  rw [ensureDirectory, outcome_rescue, outcome_makeDirectory hl]
  simp only [Failure.isSystem, isNoEntry, Bool.not_false, Bool.and_self, if_true]
  rw [outcome_bind_of_ok (outcome_isDirectory hl)]
  rfl

theorem outcome_namesEndingIn (hl : h.files.Leads h.cwd path q) (ending : Text) :
    outcome (namesEndingIn ending path.text) h =
      (.ok ((h.files.namesIn q).filter fun n => Text.startsWith ending.reverse n.reverse), h) := by
  have hn := FilePath.hasNul_text hl.isProper
  rw [namesEndingIn, outcome_bind_of_ok (outcome_isDirectory hl), if_pos rfl, outcome_bind,
    outcome_call hn, hl.listDirectory_eq]
  rfl

/-! ## A name in the directory -/

theorem hasNul_child (hl : h.files.Leads h.cwd path q) (hn : isName name) :
    hasNul (path.child name).text = false :=
  FilePath.hasNul_text (hl.isProper.child (isPlain_of_isName hn))

theorem outcome_status?_entry (hl : h.files.Leads h.cwd path q) {e : Entry}
    (he : h.files.entryAt (q ++ [name]) = some e) (hlink : ∀ target, e ≠ .link target) :
    outcome (status? (path.child name).text) h = (.ok (some e), h) :=
  outcome_status?_of_status (hasNul_child hl (isName_of_entryAt he))
    (hl.status_child he hlink)

theorem outcome_status?_vacant (hl : h.files.Leads h.cwd path q) (hn : isName name)
    (he : h.files.entryAt (q ++ [name]) = none) :
    outcome (status? (path.child name).text) h = (.ok none, h) := by
  have hnul := hasNul_child hl hn
  rw [status?, hnul, if_neg Bool.false_ne_true, outcome_bind_of_ok (outcome_get h)]
  simp only [hl.status_vacant hn he]
  rfl

theorem outcome_status?_tooLong (hl : h.files.Leads h.cwd path q) (hp : isPlain name)
    (hn : isTooLong name) : outcome (status? (path.child name).text) h =
      (.error (.system .nameTooLong (path.child name).text), h) := by
  have hnul := FilePath.hasNul_text (hl.isProper.child hp)
  rw [status?, hnul, if_neg Bool.false_ne_true, outcome_bind_of_ok (outcome_get h)]
  simp only [hl.status_tooLong hp hn]
  rfl

theorem outcome_status?_of_hasNul {t : Text} (hn : hasNul t) :
    outcome (status? t) h = (.ok none, h) := by
  rw [status?, if_pos hn]
  rfl

theorem outcome_isFile (hl : h.files.Leads h.cwd path q) {bytes : Bytes}
    (he : h.files.entryAt (q ++ [name]) = some (.file bytes)) :
    outcome (isFile (path.child name).text) h = (.ok true, h) := by
  rw [isFile, outcome_bind_of_ok (outcome_status?_entry hl he (by simp))]
  rfl

theorem outcome_isFile_vacant (hl : h.files.Leads h.cwd path q) (hn : isName name)
    (he : h.files.entryAt (q ++ [name]) = none) :
    outcome (isFile (path.child name).text) h = (.ok false, h) := by
  rw [isFile, outcome_bind_of_ok (outcome_status?_vacant hl hn he)]
  rfl

theorem outcome_pathExists_vacant (hl : h.files.Leads h.cwd path q) (hn : isName name)
    (he : h.files.entryAt (q ++ [name]) = none) :
    outcome (pathExists (path.child name).text) h = (.ok false, h) := by
  rw [pathExists, outcome_bind_of_ok (outcome_status?_vacant hl hn he)]
  rfl

/-- A text is read from the file that holds its bytes. -/
theorem outcome_readText (hl : h.files.Leads h.cwd path q) {t : Text}
    (he : h.files.entryAt (q ++ [name]) = some (.file (Utf8.encode t))) :
    outcome (readText (path.child name).text) h = (.ok t, h) := by
  exact outcome_readText_of_decode (hasNul_child hl (isName_of_entryAt he)) (hl.readFile_child he)
    (Utf8.decode_encode t)

/-- A text is written where a file or nothing is. -/
theorem outcome_writeText (hl : h.files.Leads h.cwd path q) (hn : isName name)
    (he : ∀ e, h.files.entryAt (q ++ [name]) = some e → ∃ bytes, e = .file bytes) (t : Text) :
    outcome (writeText (path.child name).text t) h =
      (.ok (), { h with files := h.files.put (q ++ [name]) (.file (Utf8.encode t)) }) := by
  rw [writeText, outcome_change (hasNul_child hl hn)]
  rcases hq : h.files.entryAt (q ++ [name]) with _ | e
  · rw [hl.changeFile_vacant hn hq]
  · obtain ⟨bytes, rfl⟩ := he e hq
    rw [hl.changeFile_child hq]

theorem outcome_removeIfThere (hl : h.files.Leads h.cwd path q) {bytes : Bytes}
    (he : h.files.entryAt (q ++ [name]) = some (.file bytes)) :
    outcome (removeIfThere (path.child name).text) h =
      (.ok (), { h with files := h.files.erase (q ++ [name]) }) := by
  have hn := hasNul_child hl (isName_of_entryAt he)
  rw [removeIfThere, outcome_rescue, outcome_change hn, hl.unlink_child he]

theorem outcome_removeIfThere_vacant (hl : h.files.Leads h.cwd path q) (hn : isName name)
    (he : h.files.entryAt (q ++ [name]) = none) :
    outcome (removeIfThere (path.child name).text) h = (.ok (), h) := by
  have hnul := hasNul_child hl hn
  rw [removeIfThere, outcome_rescue, outcome_change hnul, hl.unlink_vacant hn he]
  rfl

/-- A directory is made where nothing is. -/
theorem outcome_ensureDirectory_vacant (hl : h.files.Leads h.cwd path q) (hn : isName name)
    (he : h.files.entryAt (q ++ [name]) = none) :
    outcome (ensureDirectory (path.child name).text) h =
      (.ok (), { h with files := h.files.put (q ++ [name]) .directory }) := by
  have hnul := hasNul_child hl hn
  rw [ensureDirectory, outcome_rescue, makeDirectory, outcome_change hnul,
    hl.makeDirectory_vacant hn he]

theorem outcome_ensureDirectories_vacant (hl : h.files.Leads h.cwd path q) (hn : isName name)
    (he : h.files.entryAt (q ++ [name]) = none) :
    outcome (ensureDirectories (path.child name)) h =
      (.ok (), { h with files := h.files.put (q ++ [name]) .directory }) :=
  outcome_ensureDirectories (outcome_ensureDirectory_vacant hl hn he)

end ReplyLedger.Action
