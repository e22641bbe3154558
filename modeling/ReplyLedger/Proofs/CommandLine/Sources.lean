import ReplyLedger.Proofs.CommandLine.Views
import ReplyLedger.Proofs.Text.Utf8

/-!
# A reply from a file and from the input

A reply is read from a file as it is, and from the input with all line ends unified. So the same bytes
are the same reply in both ways exactly if they hold no carriage return. When the same reply is read,
`parse` and `apply` come to the same: the rest of either command does not look at what is left of the
input (`sources_agree`). With a carriage return they may leave different files
(`sources_differ_crlf`).
-/

namespace ReplyLedger

/-! ## Unified line ends -/

namespace Text

theorem not_mem_unifyLineEnds (t : Text) : '\r' ∉ unifyLineEnds t := by
  fun_induction unifyLineEnds t with
  | case1 => simp
  | case2 t ih => simpa using ih
  | case3 c t hne ih =>
    rw [List.mem_cons, not_or]
    refine ⟨?_, ih⟩
    split
    · decide
    · rename_i hc
      exact Ne.symm hc

theorem unifyLineEnds_of_not_mem {t : Text} (h : '\r' ∉ t) : unifyLineEnds t = t := by
  fun_induction unifyLineEnds t with
  | case1 => rfl
  | case2 t ih => simp at h
  | case3 c t hne ih =>
    rw [List.mem_cons, not_or] at h
    rw [if_neg (Ne.symm h.1), ih h.2]

end Text

namespace CommandLine

open FileSystem Ledger

/-- The host with an input. -/
def piped (h : Host) (input : Text) : Host := { h with console := { h.console with input } }

theorem resembles_piped (h : Host) (input : Text) : h.Resembles .unread (piped h input) :=
  ⟨_, rfl, rfl⟩

variable {h h₁ h₂ : Host} {source reply input : Text} {terminal : Terminal} {settings : Settings}

/-! ## Reading -/

/-- A file that holds a reply is on the host, at the path that a source stands for. -/
structure HoldsReply (h : Host) (source reply : Text) : Prop where
  ne_input : source ≠ inputSource
  hasNul_eq : hasNul (FilePath.ofText source).text = false
  readFile_eq : h.files.readFile h.cwd (FilePath.ofText source).text = .ok (Utf8.encode reply)

/-- A path that a file is read from names the file. -/
theorem status_of_readFile {fs : FileSystem} {cwd : CurrentDirectory} {path : Text} {bytes : Bytes}
    (hr : fs.readFile cwd path = .ok bytes) : fs.status cwd path = .ok (.file bytes) := by
  rw [readFile] at hr
  rcases hs : fs.status cwd path with error | _ | bytes' | target
  · simp [hs, bind, Except.bind] at hr
  · simp [hs, bind, Except.bind] at hr
  · rw [hs] at hr
    obtain rfl : bytes' = bytes := Except.ok.inj hr
    rfl
  · simp [hs, bind, Except.bind] at hr

/-- A reply is read as it is from the file that holds it. -/
theorem HoldsReply.outcome_readSource (hh : HoldsReply h source reply) :
    outcome (readSource source) h = (.ok reply, h) := by
  have hfile : outcome (ofAction (Action.isFile (FilePath.ofText source).text)) h = (.ok true, h) := by
    rw [outcome_ofAction, Action.isFile, Action.status?, if_neg (by simp [hh.hasNul_eq]), bind_assoc,
      outcome_bind_of_ok (outcome_get h), status_of_readFile hh.readFile_eq]
    rfl
  have htext : outcome (ofAction (Action.readText (FilePath.ofText source).text)) h =
      (.ok reply, h) := by
    rw [outcome_ofAction, Action.outcome_readText_of_decode hh.hasNul_eq hh.readFile_eq
      (Utf8.decode_encode reply)]
    rfl
  rw [readSource, if_neg hh.ne_input]
  dsimp only
  rw [outcome_bind_of_ok hfile]
  exact htext

/-- The input is read with all line ends unified, and is used up. -/
theorem outcome_readSource_input (h : Host) : outcome (readSource inputSource) h =
    (.ok (Text.unifyLineEnds h.console.input), piped h []) := rfl

/-- New directories leave the file where it is. -/
theorem HoldsReply.gains (hh : HoldsReply h₁ source reply)
    (hg : h₁.files.GainsDirectories (fun _ => True) h₂.files) (hc : h₂.cwd = h₁.cwd) :
    HoldsReply h₂ source reply :=
  ⟨hh.ne_input, hh.hasNul_eq, by rw [hc]; exact GainsDirectories.readFile_eq hg hh.readFile_eq⟩

/-- The two sources give the same reply exactly if the input has it as its text with all line ends
unified. -/
theorem HoldsReply.readSource_eq_iff (hh : HoldsReply h source reply) (input : Text) :
    (outcome (readSource inputSource) (piped h input)).1 = (outcome (readSource source) h).1 ↔
      Text.unifyLineEnds input = reply := by
  rw [outcome_readSource_input, hh.outcome_readSource]
  exact ⟨fun he => Except.ok.inj he, fun he => congrArg Except.ok he⟩

/-! ## Runs -/

/-- Two runs have come to the same, and have left hosts that differ in what is left of their inputs
only. -/
def SameRun {ε α : Type} (run run' : Except ε α × Host) : Prop :=
  run.1 = run'.1 ∧ run.2.Resembles .unread run'.2

/-- With the same reply, the operations that are shown are the same. -/
theorem sameRun_parse (hh : HoldsReply h source reply) (hu : Text.unifyLineEnds input = reply) :
    SameRun (outcome (runCommand terminal settings (.parse source)) h)
      (outcome (runCommand terminal settings (.parse inputSource)) (piped h input)) := by
  change SameRun (outcome (showOperations source) h) (outcome (showOperations inputSource) _)
  rw [showOperations_eq_bind, showOperations_eq_bind, outcome_bind_of_ok hh.outcome_readSource,
    outcome_bind_of_ok (outcome_readSource_input _)]
  subst hu
  exact heedless_showText _ _ _ (resembles_piped h [])

/-- After the ledger has been opened with a current task, the same reply comes to the same. -/
theorem sameRun_apply_opened (app : App) (ledger : Ledger) (hh : HoldsReply h₁ source reply)
    (hu : Text.unifyLineEnds input = reply) (hr : h₁.Resembles (.holding input) h₂) :
    (outcome (app.apply source true) ⟨h₁, ledger⟩).1 =
        (outcome (app.apply inputSource true) ⟨h₂, ledger⟩).1 ∧
      (outcome (app.apply source true) ⟨h₁, ledger⟩).2.Resembles .unread
        (outcome (app.apply inputSource true) ⟨h₂, ledger⟩).2 := by
  obtain ⟨c, rfl, hc, hinput⟩ := hr
  have hfile : outcome (onHost (readSource source)) ⟨h₁, ledger⟩ = (.ok reply, ⟨h₁, ledger⟩) := by
    rw [outcome_onHost, hh.outcome_readSource]
  have hpiped : outcome (onHost (readSource inputSource)) ⟨{ h₁ with console := c }, ledger⟩ =
      (.ok reply, ⟨{ h₁ with console := { c with input := [] } }, ledger⟩) := by
    rw [outcome_onHost, outcome_readSource_input, ← hu, ← hinput]
    rfl
  rw [App.apply_eq_bind, App.apply_eq_bind, outcome_bind_of_ok hfile, outcome_bind_of_ok hpiped]
  exact app.heedless_applyText reply _ _ ⟨⟨_, rfl, hc⟩, rfl⟩

/-- What both commands come to with the reply in the file, and with an input. -/
structure SameFromInput (terminal : Terminal) (settings : Settings) (h : Host)
    (source input : Text) : Prop where
  parse : SameRun (outcome (runCommand terminal settings (.parse source)) h)
    (outcome (runCommand terminal settings (.parse inputSource)) (piped h input))
  files_apply : (outcome (runCommand terminal settings (.apply source true)) h).2.files =
    (outcome (runCommand terminal settings (.apply inputSource true)) (piped h input)).2.files
  /-- Without a current task there is nothing to compare: what opening the ledger has cleared away
  may have been the file. -/
  apply : (∀ app ledger opened, outcome (openDesk terminal settings) h = (.ok (app, ledger), opened) →
      ledger.current ≠ none) →
    SameRun (outcome (runCommand terminal settings (.apply source true)) h)
      (outcome (runCommand terminal settings (.apply inputSource true)) (piped h input))

theorem sameFromInput (hh : HoldsReply h source reply) (hu : Text.unifyLineEnds input = reply) :
    SameFromInput terminal settings h source input := by
  have hopened := heedless_openDesk (v := .holding input) terminal settings h (piped h input)
    ⟨_, rfl, rfl, rfl⟩
  rcases ho : outcome (openDesk terminal settings) h with ⟨result, k⟩
  rcases ho' : outcome (openDesk terminal settings) (piped h input) with ⟨result', k'⟩
  rw [ho, ho'] at hopened
  obtain ⟨rfl, hk⟩ := hopened
  have hunread : k.Resembles .unread k' := hk.mono (fun c₁ c₂ hc => And.left hc)
  rcases result with f | ⟨app, ledger⟩
  · have hrun := outcome_runCommand_apply_of_error ho source true
    have hrun' := outcome_runCommand_apply_of_error ho' inputSource true
    refine ⟨sameRun_parse hh hu, ?_, fun _ => ?_⟩
    · rw [hrun, hrun']
      exact hunread.files
    · rw [hrun, hrun']
      exact ⟨rfl, hunread⟩
  · have hrun := outcome_runCommand_apply ho source true
    have hrun' := outcome_runCommand_apply ho' inputSource true
    by_cases hc : ledger.current = none
    · refine ⟨sameRun_parse hh hu, ?_, fun hcurrent => absurd hc (hcurrent app ledger k ho)⟩
      have hfile : (outcome (app.apply source true) ⟨k, ledger⟩).2.host.files = k.files :=
        app.files_apply_of_no_task source true hc
      have hpiped : (outcome (app.apply inputSource true) ⟨k', ledger⟩).2.host.files = k'.files :=
        app.files_apply_of_no_task inputSource true hc
      rw [hrun, hrun']
      exact hfile.trans (hunread.files.trans hpiped.symm)
    · obtain ⟨hgains, hcwd⟩ := gains_openDesk ho hc
      obtain ⟨hresult, hdesk⟩ := sameRun_apply_opened app ledger
        (hh.gains hgains hcwd) hu hk
      refine ⟨sameRun_parse hh hu, ?_, fun _ => ?_⟩
      · rw [hrun, hrun']
        exact hdesk.host.files
      · rw [hrun, hrun']
        exact ⟨hresult, hdesk.host⟩

/-- **A file and the input give the same result when they give the same reply**: `parse` shows the same
operations, and `apply` leaves the same files, records among them. The same bytes are the same reply
from both exactly if they hold no carriage return. -/
theorem sources_agree (terminal : Terminal) (settings : Settings)
    (hh : HoldsReply h source reply) :
    (∀ input,
      (outcome (readSource inputSource) (piped h input)).1 = (outcome (readSource source) h).1 →
        SameFromInput terminal settings h source input) ∧
    ((outcome (readSource inputSource) (piped h reply)).1 = (outcome (readSource source) h).1 ↔
      '\r' ∉ reply) := by
  refine ⟨fun input hr => sameFromInput hh ((hh.readSource_eq_iff input).1 hr), ?_⟩
  rw [hh.readSource_eq_iff]
  constructor
  · intro hu
    rw [← hu]
    exact Text.not_mem_unifyLineEnds reply
  · exact Text.unifyLineEnds_of_not_mem

/-! ### A reply in a file -/

/-- The path of the file with the reply. -/
def replyPath : Text := ['/', 'r']

/-- A workspace and a task, with a reply in a file beside them. -/
def replyHost (reply : Text) : Host :=
  { promptHost with
    files := promptHost.files.put [['r']] (.file (Utf8.encode reply))
    console := {} }

/-- A reply that makes a file with two lines, and the ends that lines have in it. -/
def linesReply (lineEnd : Text) : Text :=
  "<<<CREATE: n>>>".toList ++ lineEnd ++ ['a'] ++ lineEnd ++ ['b'] ++ lineEnd ++ "<<<END>>>".toList

/-- Whether there is a current task when the ledger is opened. -/
def hasTask (terminal : Terminal) (settings : Settings) (h : Host) : Bool :=
  match (outcome (openDesk terminal settings) h).1 with
  | .ok (_, ledger) => ledger.current.isSome
  | .error _ => false

/-- Without carriage returns, the same file is made and the same is recorded. -/
theorem sources_agree_linesReply :
    let run := outcome (runCommand endedTerminal promptSettings (.apply replyPath true))
      (replyHost (linesReply ['\n']))
    SameRun run (outcome (runCommand endedTerminal promptSettings (.apply inputSource true))
      (piped (replyHost (linesReply ['\n'])) (linesReply ['\n']))) ∧
    run.2.files.fileAt [['w'], ['n']] = some (Utf8.encode ['a', '\n', 'b']) ∧
    run.2.files.entryAt promptRecord ≠ (replyHost (linesReply ['\n'])).files.entryAt promptRecord := by
  have hholds : HoldsReply (replyHost (linesReply ['\n'])) replyPath (linesReply ['\n']) :=
    ⟨by decide, by decide, by decide +kernel⟩
  have hagree := sources_agree endedTerminal promptSettings hholds
  have hsame := hagree.1 _ (hagree.2.2 (by decide))
  have hmade : (outcome (runCommand endedTerminal promptSettings (.apply replyPath true))
      (replyHost (linesReply ['\n']))).2.files.fileAt [['w'], ['n']] =
        some (Utf8.encode ['a', '\n', 'b']) := by
    decide +kernel
  have hrecord : (outcome (runCommand endedTerminal promptSettings (.apply replyPath true))
      (replyHost (linesReply ['\n']))).2.files.entryAt promptRecord ≠
        (replyHost (linesReply ['\n'])).files.entryAt promptRecord := by
    decide +kernel
  refine ⟨hsame.apply fun app ledger opened ho => ?_, hmade, hrecord⟩
  have htask : hasTask endedTerminal promptSettings (replyHost (linesReply ['\n'])) := by
    decide +kernel
  rw [hasTask, ho] at htask
  exact Option.isSome_iff_ne_none.1 htask

/-- **With carriage returns, the same bytes leave different files**: the file that is made holds the
line ends of the reply if that is read from a file, and others if it is read from the input; and
different operations are recorded. -/
theorem sources_differ_crlf :
    let reply := linesReply ['\r', '\n']
    let run := outcome (runCommand endedTerminal promptSettings (.apply replyPath true))
      (replyHost reply)
    let run' := outcome (runCommand endedTerminal promptSettings (.apply inputSource true))
      (piped (replyHost reply) reply)
    HoldsReply (replyHost reply) replyPath reply ∧
      run.2.files.fileAt [['w'], ['n']] = some (Utf8.encode ['a', '\r', '\n', 'b']) ∧
      run'.2.files.fileAt [['w'], ['n']] = some (Utf8.encode ['a', '\n', 'b']) ∧
      run.2.files.entryAt promptRecord ≠ run'.2.files.entryAt promptRecord := by
  refine ⟨⟨by decide, by decide, by decide +kernel⟩, ?_, ?_, ?_⟩
  · decide +kernel
  · decide +kernel
  · decide +kernel

end CommandLine

end ReplyLedger
