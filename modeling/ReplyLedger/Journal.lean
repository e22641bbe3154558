import ReplyLedger.Host.Files

/-!
# The journal

A text file with one entry for every operation that was applied or failed, each begun by the time at
which it was written. Entries are only ever added.
-/

namespace ReplyLedger

/-- The journal in a file. -/
structure Journal where
  path : FilePath
  deriving DecidableEq, Repr

namespace Journal

/-- The time in front of an entry, to the second. -/
def stamp (t : Timestamp) : Text :=
  Timestamp.writeDate t.date ++ ['T'] ++ Timestamp.writeHourMinute t.micros ++ [':'] ++
    Text.ofNatPadded 2 (Timestamp.secondOf t.micros)

/-- Add an entry, and show it as a detail. -/
def write (j : Journal) (entry : Text) : Action Unit := do
  Action.ensureDirectories j.path.parent
  let time ← Action.journalNow
  Action.appendText j.path.text (['['] ++ stamp time ++ "] " ++ entry ++ ['\n'])
  Action.say .debug entry

/-- The last `n` lines of the journal. -/
def tail (j : Journal) (n : Int) : Action (List Text) := do
  if ← Action.isFile j.path.text then
    let lines := Text.lines (← Action.readText j.path.text)
    return lines.drop (lines.length - n.toNat)
  else return []

end Journal

end ReplyLedger
