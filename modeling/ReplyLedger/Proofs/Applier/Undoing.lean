import ReplyLedger.Proofs.Applier.Exactness
import ReplyLedger.Proofs.Host.Directory
import ReplyLedger.Proofs.Text.Undoing

/-!
# Undoing an edit

An edit of a file that is there, with a search text that occurs, is carried out and changes the bytes
of that file only (`outcome_edit`). No link is touched, so the path still stands for the file
afterwards (`Workspace.locates_of_sameLinks`); and when the replacement shares no character with the
text, the opposite edit finds it where it was put. So the two edits leave the files as they were
(`edit_undone`). Loops elsewhere do not matter: where a regular file stands, no link is on the way.

A file in the workspace is located by the path of its names, if that path is in canonical form
(`Workspace.locates_ownPath`).
-/

namespace ReplyLedger

namespace FileSystem

variable {fs : FileSystem} {p : Location}

/-- Other bytes in a file change no link. -/
theorem sameLinks_put {old new : Bytes} (h : fs.entryAt p = some (.file old)) :
    fs.SameLinks (fs.put p (.file new)) := by
  intro q target
  rw [entryAt_put (accepts_of_entryAt h (by simp))]
  split
  · rename_i hq
    simp [hq, h]
  · rfl

/-- Names that lead to a settled location are resolved to it. -/
theorem follow_settled {enter : Entered → Location → Text → Resolution} {entered : Entered}
    {here names : Location} (hs : fs.Settled (here ++ names)) :
    fs.follow enter entered here names = .resolved (here ++ names) entered := by
  induction names generalizing here with
  | nil => rw [follow, List.append_nil]
  | cons s rest ih =>
    have hnext : here ++ s :: rest = here ++ [s] ++ rest := by simp
    rw [hnext] at hs ⊢
    have hlink target := hs.not_link (here ++ [s]) target (List.prefix_append _ _)
    rw [follow_down (hs.isPlain s (by simp)) hlink]
    exact ih hs

theorem resolve_settled (hs : fs.Settled p) : fs.resolve p = .ok (.ofNames p) := by
  have hres : fs.resolution p = .resolved p [] := by
    rw [resolution]
    cases fs.linkCount <;> exact follow_settled hs
  rw [resolve, hres]
  exact settle_of_settled hs

end FileSystem

namespace Workspace

open FileSystem

variable {w : Workspace} {h h' : Host} {path : Text} {p names : Location}

/-- A path stands for the same location wherever the same links are. -/
theorem locates_of_sameLinks (hl : w.Locates h path p) (hs : h.files.SameLinks h'.files)
    (hp : h'.files.Settled p) : w.Locates h' path p := by
  obtain ⟨found, hfound, hcov, hne, rfl⟩ := locationOf_eq_ok_iff.1 (locates_iff.1 hl)
  exact locates_iff.2 <| locationOf_eq_ok_iff.2
    ⟨found, resolve_of_settled hs hfound hp, hcov, hne, rfl⟩

/-- **What stands in the workspace, and is no link, is located by its own path**, if that is in
canonical form. -/
theorem locates_ownPath (h0 : names ≠ []) (hs : h.files.Settled (w.root ++ names))
    (hc : canonicalPath (Text.joinWith ['/'] names) = Text.joinWith ['/'] names) :
    w.Locates h (Text.joinWith ['/'] names) (w.root ++ names) := by
  have hplain s (hm : s ∈ names) := isPlain_iff.1 (hs.isPlain s (List.mem_append_right _ hm))
  have hnames : (FilePath.ofText (Text.joinWith ['/'] names)).names = names := by
    rw [FilePath.ofText, FilePath.namesOf,
      Text.segments_joinWith h0 fun s hm => (hplain s hm).2.2.2.1]
    refine List.filter_eq_self.2 fun s hm => ?_
    simp [(hplain s hm).1, (hplain s hm).2.1]
  have hrelative : (FilePath.ofText (Text.joinWith ['/'] names)).isAbsolute = false := by
    obtain ⟨s, rest, rfl⟩ := List.exists_cons_of_ne_nil h0
    have hunrooted := joinWith_unrooted (hplain s (by simp)).1 (hplain s (by simp)).2.2.2.1 rest
    obtain ⟨c, t, ht⟩ := List.exists_cons_of_ne_nil hunrooted.1
    have hslash : c ≠ '/' := by simpa [ht, isRooted] using hunrooted.2
    rw [ht]
    simp [FilePath.isAbsolute, FilePath.ofText, FilePath.anchorOf, hslash]
  refine locates_iff.2 (locationOf_eq_ok_iff.2 ⟨.ofNames (w.root ++ names), ?_, ?_, ?_, rfl⟩)
  · rw [hc, FilePath.join, hrelative, if_neg Bool.false_ne_true, hnames]
    exact resolve_settled hs
  · simp [covers, FilePath.ofNames]
  · simpa [FilePath.ofNames] using h0

end Workspace

namespace Applier

open ReplyLedger.Action ReplyLedger.Workspace FileSystem Json

variable {a : Applier} {h : Host} {path s r t : Text} {q : Location}

theorem outcome_locateFile (hl : a.workspace.Locates h path q) (hq : h.files.Settled q)
    {bytes : Bytes} (he : h.files.entryAt q = some (.file bytes)) :
    outcome (a.locateFile path) h = (.ok (.ofNames q), h) := by
  have hlocate : outcome (a.locate path) h = (.ok (.ofNames q), h) := by
    rw [locate, outcome_map, hl]
    rfl
  have hfile : outcome (isFile (FilePath.ofNames q).text) h = (.ok true, h) := by
    rw [isFile, outcome_bind_of_ok (outcome_status?_of_entryAt hq he)]
    rfl
  rw [locateFile, outcome_bind_of_ok hlocate, outcome_bind_of_ok hfile]
  rfl

/-- A file that is there can be written. -/
theorem outcome_writeText_over (hq : h.files.Settled q) {bytes : Bytes}
    (he : h.files.entryAt q = some (.file bytes)) (new : Text) :
    outcome (writeText (FilePath.ofNames q).text new) h =
      (.ok (), { h with files := h.files.put q (.file (Utf8.encode new)) }) := by
  rcases List.eq_nil_or_concat q with rfl | ⟨d, name, rfl⟩
  · simp [entryAt_nil] at he
  · rw [List.concat_eq_append] at he ⊢
    exact outcome_writeText (.ofNames (isDirectory_of_entryAt_concat he)) (isName_of_entryAt he)
      (fun e hfound => ⟨bytes, Option.some.inj (hfound.symm.trans he)⟩) new

/-- **An edit with a search text that occurs is carried out**, and writes the file. -/
theorem outcome_edit (hl : a.workspace.Locates h path q)
    (he : h.files.entryAt q = some (.file (Utf8.encode t))) (hs : Text.occurrences s t ≠ 0) :
    ∃ h', outcome (a.apply (.edit (.text path) (.text s) (.text r))) h = (.ok (), h') ∧
      h'.files = h.files.put q (.file (Utf8.encode (Text.replaceAll s r t))) := by
  have hq : h.files.Settled q := .of_entryAt he (by simp)
  have hread : outcome (readText (FilePath.ofNames q).text) h = (.ok t, h) := by
    refine outcome_readText_of_decode (FilePath.hasNul_ofNames hq.isPlain) ?_ (Utf8.decode_encode t)
    rw [readFile, status_of_entryAt hq he]
    rfl
  refine ⟨{ h with
    files := h.files.put q (.file (Utf8.encode (Text.replaceAll s r t))),
    console := h.console.emit (.message .debug ("Replaced " ++ Text.ofNat (Text.occurrences s t) ++
      " occurrence(s) in " ++ path)) }, ?_, rfl⟩
  rw [apply, needText_text, pure_bind, edit, outcome_bind_of_ok (outcome_locateFile hl hq he),
    outcome_bind_of_ok hread, needText_text, pure_bind, if_neg hs, needText_text, pure_bind,
    outcome_bind_of_ok (outcome_writeText_over hq he _), outcome_say]

/-- **An edit is undone by the opposite one.** In a regular file in the workspace, let `s` occur and
let `r` share no character with the text. Replacing `s` by `r` and then `r` by `s` succeeds, by
whatever path stands for the file, and leaves every entry as it was; and the path of its names stands
for it, if it is in canonical form. -/
theorem edit_undone (a : Applier) {h : Host} {names : Location} {bytes : Bytes} {t s r : Text}
    (h0 : names ≠ []) (he : h.files.entryAt (a.workspace.root ++ names) = some (.file bytes))
    (ht : Utf8.decode bytes = .ok t) (hs : s ≠ []) (hst : s <:+: t) (hr : r ≠ [])
    (hrt : ∀ c ∈ r, c ∉ t) :
    (∀ path, a.workspace.Locates h path (a.workspace.root ++ names) → ∃ h₁ h₂,
      outcome (a.apply (.edit (.text path) (.text s) (.text r))) h = (.ok (), h₁) ∧
      h₁.files.entryAt (a.workspace.root ++ names) =
        some (.file (Utf8.encode (Text.replaceAll s r t))) ∧
      outcome (a.apply (.edit (.text path) (.text r) (.text s))) h₁ = (.ok (), h₂) ∧
      ∀ p, h₂.files.entryAt p = h.files.entryAt p) ∧
    (canonicalPath (Text.joinWith ['/'] names) = Text.joinWith ['/'] names →
      a.workspace.Locates h (Text.joinWith ['/'] names) (a.workspace.root ++ names)) := by
  obtain rfl := Utf8.encode_of_decode ht
  have hq := Settled.of_entryAt he (by simp)
  refine ⟨fun path hl => ?_, locates_ownPath h0 hq⟩
  have hcount : Text.occurrences s t ≠ 0 := by simp [Text.occurrences_eq_zero_iff, hs, hst]
  obtain ⟨h₁, ho₁, hfiles⟩ := outcome_edit (r := r) hl he hcount
  have he₁ : h₁.files.entryAt (a.workspace.root ++ names) =
      some (.file (Utf8.encode (Text.replaceAll s r t))) := by
    rw [hfiles, entryAt_put (accepts_of_entryAt he (by simp)), if_pos rfl]
  -- the opposite edit finds what has been put in, and puts back the text of the file
  have hl₁ : a.workspace.Locates h₁ path (a.workspace.root ++ names) :=
    locates_of_sameLinks hl (hfiles ▸ sameLinks_put he) (.of_entryAt he₁ (by simp))
  obtain ⟨h₂, ho₂, hfiles₂⟩ :=
    outcome_edit (r := s) hl₁ he₁ (by rwa [Text.occurrences_replaceAll hr hrt])
  refine ⟨h₁, h₂, ho₁, he₁, ho₂, fun p => ?_⟩
  rw [hfiles₂, Text.replaceAll_replaceAll hr hrt, entryAt_put (accepts_of_entryAt he₁ (by simp))]
  split
  · rename_i hp
    rw [hp, he]
  · rename_i hp
    rw [hfiles, entryAt_put_of_ne _ hp]

/-! ## A text with runs of its search text -/

/-- A workspace `/w` with a file `a/f`, a link to it, and a link to itself. -/
def runsHost : Host := .ofFiles <|
  ((((FileSystem.empty.put [['w']] .directory).put [['w'], ['a']] .directory).put
    [['w'], ['a'], ['f']] (.file (Utf8.encode "aaaaa\r\nb".toList))).put [['w'], ['l']]
      (.link ['a', '/', 'f'])).put [['w'], ['o']] (.link ['o'])

/-- Both the search text and the replacement overlap themselves, and the path leads through a
link. -/
theorem edit_undone_runsHost :
    let a : Applier := { workspace := ⟨[['w']]⟩ }
    let q : Location := [['w'], ['a'], ['f']]
    let s : Text := ['a', 'a']
    let r : Text := ['x', 'x']
    runsHost.files.entryAt q = some (.file (Utf8.encode "aaaaa\r\nb".toList)) ∧
      a.workspace.Locates runsHost "l" q ∧ ∃ h₁ h₂,
      outcome (a.apply (.edit (.text "l") (.text s) (.text r))) runsHost = (.ok (), h₁) ∧
      h₁.files.entryAt q = some (.file (Utf8.encode "xxxxa\r\nb".toList)) ∧
      outcome (a.apply (.edit (.text "l") (.text r) (.text s))) h₁ = (.ok (), h₂) ∧
      ∀ p, h₂.files.entryAt p = runsHost.files.entryAt p := by
  intro a q s r
  have he : runsHost.files.entryAt q = some (.file (Utf8.encode "aaaaa\r\nb".toList)) := by decide
  have hl : a.workspace.Locates runsHost "l" q := rfl
  obtain ⟨h₁, h₂, ho₁, he₁, ho₂, hsame⟩ := (edit_undone a (s := s) (r := r)
    (List.cons_ne_nil ['a'] [['f']]) he (Utf8.decode_encode _) (by simp [s]) (by decide)
    (by simp [r]) (by simp [r])).1 "l" hl
  have hnew : Text.replaceAll s r "aaaaa\r\nb".toList = "xxxxa\r\nb".toList := by cbv
  exact ⟨he, hl, h₁, h₂, ho₁, hnew ▸ he₁, ho₂, hsame⟩

end Applier

end ReplyLedger
