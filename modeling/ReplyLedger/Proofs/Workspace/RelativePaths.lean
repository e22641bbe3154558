import ReplyLedger.Proofs.Applier.Undoing
import ReplyLedger.Proofs.FileSystem.Paths
import ReplyLedger.Proofs.Operation.CanonicalPaths

/-!
# The path inside the workspace

What the user writes is looked up from the current directory, and named by its path inside the
workspace (`Workspace.relativePathFrom`). That depends on the links and directories only, so it stays
the same when files come and go (`relativePathFrom_of_keeps`).

The names of the location are joined and put in canonical form. So the path inside the workspace is
that of the location exactly if no name holds a backslash and there are no blanks around the joined
names, and then an operation finds the same location by it (`relativePath_names_selected`). Where this
fails, the path may be that of another file (`relativePath_blankHost`).
-/

namespace ReplyLedger

open FileSystem

/-! ## File systems with the same links and directories -/

namespace FileSystem

variable {fs gs : FileSystem}

theorem sameLinks_of_keeps (hk : fs.Keeps gs) (hk' : gs.Keeps fs) : fs.SameLinks gs :=
  fun p _ => ⟨fun h => hk p _ h (by simp), fun h => hk' p _ h (by simp)⟩

theorem exists_atLink_of_walk {last : LastName} {links : Nat} {here : Location}
    {segments : List Text} (h : fs.walk last links here segments = .error .tooManyLinks) :
    ∃ directory target rest, fs.advance last here segments = .atLink directory target rest := by
  rw [walk] at h
  rcases hadv : fs.advance last here segments with found | error | ⟨directory, target, rest⟩
  · simp [hadv] at h
  · simp only [hadv, Except.error.injEq] at h
    exact absurd (h ▸ hadv) (advance_ne_tooManyLinks last here segments)
  · exact ⟨directory, target, rest, rfl⟩

/-- A way comes to the same link where only files come and go. -/
theorem atLink_of_keeps (hk : fs.Keeps gs) {here directory : Location} {target : Text}
    {segments rest : List Text}
    (h : fs.advance .followed here segments = .atLink directory target rest) :
    gs.advance .followed here segments = .atLink directory target rest := by
  have hon : GoesOn .followed [] := .inl rfl
  simpa only [List.append_nil] using (advance_append hk hon segments here).2 directory target rest h

/-- Where there are too many links on a way, there are too many when only files come and go. -/
theorem walk_tooManyLinks_of_keeps (hk : fs.Keeps gs) {links : Nat} {here : Location}
    {segments : List Text} (h : fs.walk .followed links here segments = .error .tooManyLinks) :
    gs.walk .followed links here segments = .error .tooManyLinks := by
  induction links generalizing here segments with
  | zero =>
    obtain ⟨directory, target, rest, hadv⟩ := exists_atLink_of_walk h
    rw [walk, atLink_of_keeps hk hadv]
  | succ links ih =>
    obtain ⟨directory, target, rest, hadv⟩ := exists_atLink_of_walk h
    rw [walk, hadv] at h
    rw [walk, atLink_of_keeps hk hadv]
    exact ih h

/-- **Where the same links and directories are, paths come to the same.** -/
theorem resolve_of_keeps (hk : fs.Keeps gs) (hk' : gs.Keeps fs) (segments : List Text) :
    gs.resolve segments = fs.resolve segments := by
  have hsettle (path : FilePath) : gs.settle path = fs.settle path := by
    rw [settle, settle]
    split
    · rfl
    · by_cases hw : fs.walk .followed maxLinks [] path.names = .error .tooManyLinks
      · rw [hw, walk_tooManyLinks_of_keeps hk hw]
      · have hw' := fun h => hw (walk_tooManyLinks_of_keeps hk' h)
        split
        · exact absurd ‹_› hw'
        · rfl
  unfold resolve
  rw [resolution_congr (sameLinks_of_keeps hk hk')]
  split
  · exact hsettle _
  · exact hsettle _
  · rfl

end FileSystem

namespace Workspace

variable {w : Workspace} {h : Host} {path : Text} {names : Location}

/-! ## What the user writes -/

/-- The names on the way from the root that the user writes. -/
def segmentsFrom (cwd : CurrentDirectory) (path : Text) : Except Failure (List Text) :=
  match (FilePath.ofText path).isAbsolute, cwd with
  | true, _ => .ok (FilePath.ofText path).names
  | false, .present here => .ok (here ++ (FilePath.ofText path).names)
  | false, .removed _ _ => .error .noCurrentDirectory

/-- The path that it comes to. -/
def resolvedFrom (fs : FileSystem) (cwd : CurrentDirectory) (path : Text) :
    Except Failure FilePath :=
  match segmentsFrom cwd path with
  | .error f => .error f
  | .ok segments =>
    match fs.resolve segments with
    | .ok found => .ok found
    | .error .badName => .error .badName
    | .error (.loop found) => .error (.linkLoop found.text)

/-- The path inside the workspace. -/
def relativePathFrom (w : Workspace) (fs : FileSystem) (cwd : CurrentDirectory) (path : Text) :
    Except Failure Text :=
  match resolvedFrom fs cwd path with
  | .error f => .error f
  | .ok found =>
    if w.covers found then
      let names := found.names.drop w.root.length
      .ok (canonicalPath (if names = [] then ['.'] else Text.joinWith ['/'] names))
    else .error (.outside path)

theorem outcome_resolvePath {p : FilePath} (hp : p.isAbsolute = true) (h : Host) :
    outcome (resolvePath p) h =
      (match h.files.resolve p.names with
        | .ok found => .ok found
        | .error .badName => .error .badName
        | .error (.loop found) => .error (.linkLoop found.text), h) := by
  have hrooted : outcome (rootedSegments p) h = (.ok p.names, h) := by
    rw [rootedSegments, outcome_bind_of_ok (outcome_get h)]
    simp only [hp, absolutePath, if_true]
    rfl
  rw [resolvePath, outcome_bind_of_ok hrooted, outcome_bind_of_ok (outcome_get h)]
  rcases h.files.resolve p.names with (_ | found) | found <;> rfl

/-- Looking up what the user writes changes nothing. -/
theorem outcome_resolveFrom (path : Text) (h : Host) :
    outcome (do resolvePath (← absolutePath (.ofText path))) h =
      (resolvedFrom h.files h.cwd path, h) := by
  rcases hp : (FilePath.ofText path).isAbsolute with _ | _
  · have hjoin (here : Location) : ((FilePath.ofNames here).join (.ofText path)) =
        .ofNames (here ++ (FilePath.ofText path).names) := by
      rw [FilePath.join, hp, if_neg Bool.false_ne_true]
      rfl
    rcases hcwd : h.cwd with here | ⟨above, between⟩
    · have habs : outcome (absolutePath (.ofText path)) h =
          (.ok (.ofNames (here ++ (FilePath.ofText path).names)), h) := by
        rw [absolutePath, hp, if_neg Bool.false_ne_true, Action.currentLocation, bind_assoc,
          outcome_bind_of_ok (outcome_get h)]
        simp only [hcwd, pure_bind, hjoin]
        rfl
      rw [outcome_bind_of_ok habs, outcome_resolvePath rfl]
      simp only [resolvedFrom, segmentsFrom, hp, FilePath.ofNames]
    · have habs : outcome (absolutePath (.ofText path)) h = (.error .noCurrentDirectory, h) := by
        rw [absolutePath, hp, if_neg Bool.false_ne_true, Action.currentLocation, bind_assoc,
          outcome_bind_of_ok (outcome_get h)]
        simp only [hcwd]
        rfl
      rw [outcome_bind_of_error habs]
      simp only [resolvedFrom, segmentsFrom, hp]
  · have habs : outcome (absolutePath (.ofText path)) h = (.ok (.ofText path), h) := by
      rw [absolutePath, if_pos hp]
      rfl
    rw [outcome_bind_of_ok habs, outcome_resolvePath hp]
    simp only [resolvedFrom, segmentsFrom, hp]

/-- Finding the path inside the workspace changes nothing. -/
theorem outcome_relativePath (w : Workspace) (path : Text) (h : Host) :
    outcome (w.relativePath path) h = (w.relativePathFrom h.files h.cwd path, h) := by
  have hresolve := outcome_resolveFrom path h
  rw [relativePath, ← bind_assoc, relativePathFrom]
  rcases hf : resolvedFrom h.files h.cwd path with f | found
  · rw [hf] at hresolve
    rw [outcome_bind_of_error hresolve]
  · rw [hf] at hresolve
    rw [outcome_bind_of_ok hresolve]
    dsimp only
    split <;> rfl

/-- **The path inside the workspace stays the same when files come and go.** -/
theorem relativePathFrom_of_keeps {fs gs : FileSystem} (hk : fs.Keeps gs) (hk' : gs.Keeps fs)
    (w : Workspace) (cwd : CurrentDirectory) (path : Text) :
    w.relativePathFrom gs cwd path = w.relativePathFrom fs cwd path := by
  simp only [relativePathFrom, resolvedFrom, resolve_of_keeps hk hk']

/-! ## What it is found by -/

/-- Whether what the user writes comes to a location. -/
def Selects (h : Host) (path : Text) (q : Location) : Prop :=
  outcome (do resolvePath (← absolutePath (.ofText path))) h = (.ok (.ofNames q), h)

/-- Without loops, what the user writes leads to the location, and no link is on the way to that. -/
theorem Selects.settled {q : Location} (hsel : Selects h path q) (hloops : h.files.LoopFree)
    (hcwd : ∀ here, h.cwd = .present here → h.files.IsDirectory here) : h.files.Settled q := by
  rw [Selects, outcome_resolveFrom, resolvedFrom] at hsel
  rcases hsegments : segmentsFrom h.cwd path with f | segments
  · simp [hsegments] at hsel
  have hslash : ∀ s ∈ segments, '/' ∉ s := by
    have hnames : ∀ s ∈ (FilePath.ofText path).names, '/' ∉ s := fun s hs =>
      Text.not_mem_of_mem_segments (List.mem_filter.1 hs).1
    unfold segmentsFrom at hsegments
    split at hsegments
    · exact Except.ok.inj hsegments ▸ hnames
    · rename_i here _ hc
      obtain rfl := Except.ok.inj hsegments
      intro s hs
      rcases List.mem_append.1 hs with hs | hs
      · exact slash_not_mem (fun u hu => isPlain_of_isName (isName_of_isDirectory (hcwd here hc) hu))
          s hs
      · exact hnames s hs
    · exact nomatch hsegments
  rcases hfound : h.files.resolve segments with (_ | loop) | found
  · simp [hsegments, hfound] at hsel
  · simp [hsegments, hfound] at hsel
  · simp only [hsegments, hfound, Prod.mk.injEq, Except.ok.injEq, and_true] at hsel
    subst hsel
    exact (resolve_eq_ok hloops hslash hfound).2.1

/-- Names of a location stay as they are when they are joined and put in canonical form, exactly if
no backslash is in them and no blanks are around them. -/
theorem canonicalPath_joinWith_iff (hplain : ∀ s ∈ names, isPlain s) :
    canonicalPath (Text.joinWith ['/'] names) = Text.joinWith ['/'] names ↔
      (∀ s ∈ names, '\\' ∉ s) ∧
        Text.strip (Text.joinWith ['/'] names) = Text.joinWith ['/'] names := by
  have hnaming : ∀ s ∈ names, isNamingSegment s ∧ '/' ∉ s := by
    intro s hs
    obtain ⟨h0, h1, -, hslash, -⟩ := isPlain_iff.1 (hplain s hs)
    exact ⟨by simp [isNamingSegment, h0, h1], hslash⟩
  constructor
  · intro hc
    refine ⟨fun s hs hmem => ?_, strip_of_canonicalPath hc⟩
    have hslashed := slashed_canonicalPath (Text.joinWith ['/'] names)
    rw [hc] at hslashed
    have hback := @Text.mem_joinWith_of_mem ['/'] _ _ _ hs hmem
    rw [← hslashed] at hback
    obtain ⟨c, -, hc⟩ := List.mem_map.1 hback
    split at hc
    · exact absurd hc (by decide)
    · contradiction
  · rintro ⟨hback, hstrip⟩
    have hslashed : slashed (Text.joinWith ['/'] names) = Text.joinWith ['/'] names := by
      have hnone : ∀ c ∈ Text.joinWith ['/'] names, c ≠ '\\' := by
        rintro c hc rfl
        rcases Text.mem_joinWith hc with hsep | ⟨s, hs, hmem⟩
        · exact absurd hsep (by decide)
        · exact hback s hs hmem
      rw [slashed, List.map_congr_left fun c hc => if_neg (hnone c hc), List.map_id']
    rw [canonicalPath_eq_tidied, hstrip, hslashed, tidied, if_neg (head?_joinWith_ne_slash hnaming),
      namingSegments_joinWith hnaming]
    rfl

/-- **What is selected inside the workspace gets its own path, if that is in canonical form.** On a
host without link loops, let what the user writes come to a location strictly below the root. Then it
gets the names of the location for its path, joined and put in canonical form. That changes nothing
exactly if no name holds a backslash and no blanks are around the joined names; then an operation
finds the location by the path, and nothing gets that path that comes to another such location. -/
theorem relativePath_names_selected (w : Workspace) (hloops : h.files.LoopFree)
    (hcwd : ∀ here, h.cwd = .present here → h.files.IsDirectory here) (h0 : names ≠ [])
    (hsel : Selects h path (w.root ++ names)) :
    let written := Text.joinWith ['/'] names
    outcome (w.relativePath path) h = (.ok (canonicalPath written), h) ∧
      (canonicalPath written = written ↔
        (∀ s ∈ names, '\\' ∉ s) ∧ Text.strip written = written) ∧
      (canonicalPath written = written →
        w.Locates h (canonicalPath written) (w.root ++ names) ∧
        ∀ path' names', names' ≠ [] → Selects h path' (w.root ++ names') →
          canonicalPath (Text.joinWith ['/'] names') = Text.joinWith ['/'] names' →
          (outcome (w.relativePath path') h).1 = (outcome (w.relativePath path) h).1 →
          names' = names) := by
  have hrelative {path : Text} {names : Location} (h0 : names ≠ [])
      (hsel : Selects h path (w.root ++ names)) : outcome (w.relativePath path) h =
        (.ok (canonicalPath (Text.joinWith ['/'] names)), h) := by
    have hcovers : w.covers (.ofNames (w.root ++ names)) = true := by simp [covers, FilePath.ofNames]
    have hdrop : (FilePath.ofNames (w.root ++ names)).names.drop w.root.length = names :=
      List.drop_left
    rw [relativePath, ← bind_assoc, outcome_bind_of_ok hsel, hcovers, if_pos rfl]
    simp only [hdrop, if_neg h0]
    rfl
  have hsettled := hsel.settled hloops hcwd
  refine ⟨hrelative h0 hsel, canonicalPath_joinWith_iff fun s hs =>
    hsettled.isPlain s (List.mem_append_right _ hs), fun hc => ?_⟩
  have hlocates := locates_ownPath h0 hsettled hc
  refine ⟨hc.symm ▸ hlocates, fun path' names' h0' hsel' hc' hsame => ?_⟩
  rw [hrelative h0 hsel, hrelative h0' hsel', hc, hc'] at hsame
  have hlocates' := locates_ownPath h0' (hsel'.settled hloops hcwd) hc'
  rw [Except.ok.inj hsame] at hlocates'
  have hboth : Except.ok (w.root ++ names') = Except.ok (w.root ++ names) :=
    (locates_iff.1 hlocates').symm.trans (locates_iff.1 hlocates)
  exact List.append_cancel_left (Except.ok.inj hboth)

/-! ### A file with a blank in its name -/

/-- A workspace `/w` with a directory `s`, a file `a` and a file with a blank before the same letter,
seen from `s`, and a link `/l` to it. -/
def blankHost : Host :=
  let files := ((((FileSystem.empty.put [['w']] .directory).put [['w'], ['s']] .directory).put
    [['w'], ['a']] (.file [])).put [['w'], [' ', 'a']] (.file [])).put [['l']] (.link ['/', 'w'])
  { Host.ofFiles files with cwd := .present [['w'], ['s']] }

theorem loopFree_blankHost : blankHost.files.LoopFree := by
  refine loopFree_of_settled fun p target ht => ⟨[['w']], .of_isDirectory (by decide), ?_⟩
  have hall : ∀ x ∈ blankHost.files.entries,
      x.2 ∈ [.directory, .file [], .link (FilePath.ofNames [['w']]).text] := by decide
  have hp : p ≠ [] := by
    rintro rfl
    simp [entryAt_nil] at ht
  simpa using hall _ ((entryAt_eq_some_iff hp).1 ht)

/-- A file is selected through a link and a directory, and found again by its path. -/
theorem relativePath_names_selected_blankHost :
    let w : Workspace := ⟨[['w']]⟩
    blankHost.files.LoopFree ∧ blankHost.files.IsDirectory [['w'], ['s']] ∧
      Selects blankHost "/l/s/../a" [['w'], ['a']] ∧
      outcome (w.relativePath "/l/s/../a") blankHost = (.ok ['a'], blankHost) ∧
      w.Locates blankHost ['a'] [['w'], ['a']] := by
  intro w
  have hcwd : ∀ here, blankHost.cwd = .present here → blankHost.files.IsDirectory here := by
    rintro here hhere
    obtain rfl := CurrentDirectory.present.inj hhere
    decide
  have hsel : Selects blankHost "/l/s/../a" [['w'], ['a']] := rfl
  obtain ⟨hpath, -, hfound⟩ := relativePath_names_selected w loopFree_blankHost hcwd
    (List.cons_ne_nil ['a'] []) hsel
  exact ⟨loopFree_blankHost, hcwd _ rfl, hsel, hpath, (hfound (by decide)).1⟩

/-- **Two files have one path inside the workspace**, and an operation finds only one of them by
it: the blank at the beginning of the name of the other is taken away. -/
theorem relativePath_blankHost :
    let w : Workspace := ⟨[['w']]⟩
    blankHost.files.LoopFree ∧ blankHost.files.IsDirectory [['w'], ['s']] ∧
      Selects blankHost "../a" [['w'], ['a']] ∧ Selects blankHost "../ a" [['w'], [' ', 'a']] ∧
      outcome (w.relativePath "../a") blankHost = (.ok ['a'], blankHost) ∧
      outcome (w.relativePath "../ a") blankHost = (.ok ['a'], blankHost) ∧
      w.Locates blankHost ['a'] [['w'], ['a']] := by
  intro w
  exact ⟨loopFree_blankHost, by decide, rfl, rfl, rfl, rfl, rfl⟩

end Workspace

end ReplyLedger
