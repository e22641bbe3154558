import ReplyLedger.Journal
import ReplyLedger.Proofs.FileSystem.Files
import ReplyLedger.Proofs.FileSystem.Rereading
import ReplyLedger.Proofs.Host.Directory
import ReplyLedger.Proofs.Host.NewDirectories
import ReplyLedger.Proofs.Text.Lines

/-!
# Journals

A journal is in reach if its path leads to a place where its file is or can be made
(`Journal.Reaches`); then an entry goes behind what the file holds (`Reaches.outcome_write`). The
directories on the way may be missing as long as they can be made (`Journal.Holds`). A journal stands
if it can be written to and its lines are those of a certain text (`Journal.Stands`): a new one stands
with no text (`IsNew.stands`), and an entry that is written goes behind the text
(`exists_stands_of_write`).
-/

namespace ReplyLedger

open FileSystem Text

namespace FileSystem

variable {fs : FileSystem} {cwd : CurrentDirectory} {p : Location} {path : Text} {found : Found}

/-- A file is changed, or made, at the place that its path leads to. -/
theorem changeFile_of_place (hf : fs.find cwd .made path = .ok found) (hp : found.place = some p)
    (change : Bytes → Bytes) :
    fs.changeFile cwd path change =
      .ok (fs.put p (.file (change ((fs.fileAt p).getD [])))) := by
  rcases found with ⟨q, _ | bytes | target⟩ | ⟨directory, name⟩ | _
  · cases hp
  · obtain rfl := Option.some.inj hp
    have he : fs.entryAt q = some (.file bytes) := entryAt_of_find hf rfl
    rw [changeFile, hf, fileAt_eq_some_iff.2 he]
    rfl
  · cases hp
  · obtain rfl := Option.some.inj hp
    rw [changeFile, hf, fileAt_eq_none (entryAt_of_find_vacant hf)]
    rfl
  · cases hp

end FileSystem

namespace Journal

variable {j : Journal} {p : Location} {held : Option Bytes} {t note : Text} {h h' : Host}

/-- A line of a journal: a note behind the time at which it is written. -/
def line (time : Timestamp) (note : Text) : Text := ['['] ++ stamp time ++ "] " ++ note

/-- The last `n` of some lines. -/
def lastOf (n : Int) (lines : List Text) : List Text := lines.drop (lines.length - n.toNat)

theorem lastOf_of_le {lines : List Text} {n : Int} (hn : lines.length ≤ n) :
    lastOf n lines = lines := by
  rw [lastOf, show lines.length - n.toNat = 0 by omega, List.drop_zero]

theorem oneLine_stamp (time : Timestamp) : OneLine (stamp time) := by
  simp only [stamp, Timestamp.writeDate, Timestamp.writeHourMinute, oneLine_append]
  exact ⟨⟨⟨⟨⟨⟨⟨⟨oneLine_ofNatPadded _ _, by decide⟩, oneLine_ofNatPadded _ _⟩, by decide⟩,
    oneLine_ofNatPadded _ _⟩, by decide⟩, ⟨oneLine_ofNatPadded _ _, by decide⟩,
    oneLine_ofNatPadded _ _⟩, by decide⟩, oneLine_ofNatPadded _ _⟩

theorem oneLine_line_iff (time : Timestamp) : OneLine (line time note) ↔ OneLine note := by
  rw [line, oneLine_append]
  exact and_iff_right
    (oneLine_append.2 ⟨oneLine_append.2 ⟨by decide, oneLine_stamp time⟩, by decide⟩)

/-- The path of a journal leads, by a directory that is there, to a place where its file is or can be
made. -/
structure Reaches (j : Journal) (p : Location) (h : Host) : Prop where
  directory : ∃ d, h.files.Leads h.cwd j.path.parent d
  named : hasNul j.path.text = false
  found : ∃ found, h.files.find h.cwd .made j.path.text = .ok found ∧ found.place = some p
  takes : h.files.TakesFile p

/-- A journal can be written to, at a place where its file holds `held`, or is not there yet. The
directories on the way may have to be made. -/
def Holds (j : Journal) (p : Location) (held : Option Bytes) (h : Host) : Prop :=
  ∃ h', outcome (Action.ensureDirectories j.path.parent) h = (.ok (), h') ∧ j.Reaches p h' ∧
    h'.files.fileAt p = held

/-- A journal holds a text, can be written to, and is read. -/
structure Stands (j : Journal) (p : Location) (t : Text) (h : Host) : Prop where
  holds : ∃ held, j.Holds p held h ∧ held.getD [] = Utf8.encode t
  tail : ∀ n, outcome (j.tail n) h = (.ok (lastOf n (lines t)), h)

/-- Making directories takes no time. -/
theorem journalReading_of_ensureDirectories {path : FilePath}
    (ho : outcome (Action.ensureDirectories path) h = (.ok (), h')) :
    h'.journalReading = h.journalReading := by
  have hmeets := Action.meets_ensureDirectories_of (K := fun _ => True)
    (P := fun k => k.journalReading = h.journalReading)
    (fun path => (Action.meets_change fun k files hk _ => hk).mono (fun _ hk => hk)
      (fun _ _ hk => hk) fun _ _ hk => ⟨trivial, hk.2⟩) (fun _ _ _ _ => trivial) path h rfl
  rw [ho] at hmeets
  exact hmeets

namespace Reaches

/-- An entry goes behind what the file holds, with the time of the moment. -/
theorem outcome_write (hr : j.Reaches p h) (note : Text) :
    outcome (j.write note) h = (.ok (), { h with
      files := h.files.put p (.file ((h.files.fileAt p).getD [] ++
        Utf8.encode (line h.journalReading note ++ ['\n'])))
      console := h.console.emit (.message .debug note)
      journalClock := h.journalClock.tail }) := by
  obtain ⟨d, hd⟩ := hr.directory
  obtain ⟨found, hf, hp⟩ := hr.found
  rw [Journal.write, outcome_bind_of_ok (Action.outcome_ensureDirectories_present hd),
    outcome_bind_of_ok (Action.outcome_journalNow h), Action.appendText]
  have happend := Action.outcome_change hr.named (fun files cwd =>
    files.changeFile cwd j.path.text fun bytes =>
      bytes ++ Utf8.encode (line h.journalReading note ++ ['\n']))
        { h with journalClock := h.journalClock.tail }
  simp only [changeFile_of_place hf hp] at happend
  exact outcome_bind_of_ok happend

/-- What keeps the way to the file keeps it in reach. -/
theorem put (hr : j.Reaches p h) (bytes : Bytes) (console : Console) (clock : List Timestamp) :
    j.Reaches p { h with
      files := h.files.put p (.file bytes), console, journalClock := clock } := by
  have hk : h.files.Keeps (h.files.put p (.file bytes)) := keeps_put hr.takes.eq_file
  have he : (h.files.put p (.file bytes)).entryAt p = some (.file bytes) := by
    rw [entryAt_put hr.takes.accepts, if_pos rfl]
  obtain ⟨d, hd⟩ := hr.directory
  obtain ⟨found, hf, hp⟩ := hr.found
  exact ⟨⟨d, hd.keep hk⟩, hr.named, ⟨_, find_of_place hk he (by simp) hf hp, rfl⟩,
    accepts_of_entryAt he (by simp), fun e hh => ⟨bytes, (Option.some.inj (he.symm.trans hh)).symm⟩⟩

/-- The file is read by lines. -/
theorem outcome_tail (hr : j.Reaches p h) (hb : h.files.fileAt p = some (Utf8.encode t)) (n : Int) :
    outcome (j.tail n) h = (.ok (lastOf n (lines t)), h) := by
  obtain ⟨found, hf, hp⟩ := hr.found
  have hfind := find_of_made (Keeps.refl h.files) (fileAt_eq_some_iff.1 hb) hf hp
  have hstatus : h.files.status h.cwd j.path.text = .ok (.file (Utf8.encode t)) := by
    rw [status, hfind]
    rfl
  have hfile : outcome (Action.isFile j.path.text) h = (.ok true, h) := by
    rw [Action.isFile, outcome_bind_of_ok (Action.outcome_status?_of_status hr.named hstatus)]
    rfl
  have hread : outcome (Action.readText j.path.text) h = (.ok t, h) := by
    refine Action.outcome_readText_of_decode hr.named ?_ (Utf8.decode_encode t)
    rw [readFile, hstatus]
    rfl
  rw [Journal.tail, outcome_bind_of_ok hfile, if_pos rfl, outcome_bind_of_ok hread]
  rfl

theorem stands (hr : j.Reaches p h) (hb : h.files.fileAt p = some (Utf8.encode t)) :
    j.Stands p t h := by
  obtain ⟨d, hd⟩ := hr.directory
  exact ⟨⟨_, ⟨h, Action.outcome_ensureDirectories_present hd, hr, hb⟩, rfl⟩, hr.outcome_tail hb⟩

end Reaches

/-- **An entry that is written is read**, behind what the journal has held. -/
theorem exists_stands_of_write (hh : j.Holds p held h) (ht : held.getD [] = Utf8.encode t)
    (note : Text) : ∃ h', outcome (j.write note) h = (.ok (), h') ∧
      j.Stands p (t ++ (line h.journalReading note ++ ['\n'])) h' := by
  obtain ⟨k, ho, hr, hk⟩ := hh
  obtain ⟨d, hd⟩ := hr.directory
  -- in `k` the directories are there, so the entry is written as in `h`
  have hsame : outcome (j.write note) h = outcome (j.write note) k := by
    rw [Journal.write, outcome_bind_of_ok ho,
      outcome_bind_of_ok (Action.outcome_ensureDirectories_present hd)]
  have hwrite := hr.outcome_write note
  rw [hk, ht, ← Utf8.encode_append] at hwrite
  rw [← journalReading_of_ensureDirectories ho]
  refine ⟨_, hsame.trans hwrite, (hr.put _ _ _).stands ?_⟩
  exact fileAt_eq_some_iff.2 ((entryAt_put hr.takes.accepts _ p).trans (if_pos rfl))

/-- The file of a journal is not there, and can be made at a place where nothing is. -/
structure IsNew (j : Journal) (p : Location) (h : Host) : Prop where
  holds : j.Holds p none h
  absent : (outcome (Action.pathExists j.path.text) h).1 = .ok false

theorem IsNew.stands (hn : j.IsNew p h) :
    j.Stands p [] h := by
  refine ⟨⟨none, hn.holds, rfl⟩, fun n => ?_⟩
  have hfile : outcome (Action.isFile j.path.text) h = (.ok false, h) := by
    have habsent := hn.absent
    have hlooks := Action.looks_status? j.path.text h
    rw [Action.pathExists, outcome_bind] at habsent
    rw [Action.isFile, outcome_bind]
    rcases hst : outcome (Action.status? j.path.text) h with ⟨_ | _ | e, k⟩
    · simp [hst] at habsent
    · rw [hst] at hlooks
      obtain rfl : k = h := hlooks
      rfl
    · simp [hst] at habsent
  rw [Journal.tail, outcome_bind_of_ok hfile, if_neg Bool.false_ne_true, lastOf, lines, linesFrom,
    if_pos (by rfl), List.drop_nil]
  rfl

end Journal

end ReplyLedger
