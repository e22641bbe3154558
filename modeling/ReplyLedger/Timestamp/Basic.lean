import ReplyLedger.Text.Basic
import ReplyLedger.Timestamp.Date

/-!
# Points in time

A timestamp is a date and a time of day, to the microsecond, at a fixed offset from universal time.
Timestamps are ordered by the instant that they denote; `instant_next` says that `next?` is one
microsecond later, at the same offset.
-/

namespace ReplyLedger

/-- The number of microseconds of a second. -/
def secondMicros : Nat := 1000000

/-- The number of microseconds of a day. -/
def dayMicros : Nat := 86400000000

theorem dayMicros_pos : 0 < dayMicros := Nat.succ_pos _

/-- A time of day on a date, at an offset east of universal time. Times count microseconds. -/
structure Timestamp where
  date : Date
  micros : Nat
  offset : Int
  micros_lt : micros < dayMicros
  offset_lt : offset.natAbs < dayMicros
  deriving DecidableEq, Repr

namespace Timestamp

/-- The first moment of a year. -/
def newYear (year : Nat) (h : 1 ≤ year ∧ year ≤ lastYear) : Timestamp where
  date := Date.newYear year h
  micros := 0
  offset := 0
  micros_lt := dayMicros_pos
  offset_lt := dayMicros_pos

/-- The instant of a timestamp, in microseconds of universal time. -/
def instant (t : Timestamp) : Int := (t.date.ordinal * dayMicros + t.micros : Nat) - t.offset

/-- The timestamp one microsecond later, unless the calendar ends. -/
def next? (t : Timestamp) : Option Timestamp :=
  if h : t.micros + 1 < dayMicros then some { t with micros := t.micros + 1, micros_lt := h }
  else
    t.date.next?.map fun d =>
      { t with date := d, micros := 0, micros_lt := dayMicros_pos }

/-- The next timestamp is one microsecond later. -/
theorem instant_next {t u : Timestamp} (h : t.next? = some u) : u.instant = t.instant + 1 := by
  have hm := t.micros_lt
  unfold next? at h
  split at h
  · obtain rfl := Option.some.inj h
    simp only [instant]
    omega
  · obtain ⟨d, hd, rfl⟩ := Option.map_eq_some_iff.1 h
    have ho := Date.ordinal_next hd
    simp only [instant, ho, dayMicros] at *
    omega

/-! ## Parts of the day -/

/-- The hour of a time of day. -/
def hourOf (micros : Nat) : Nat := micros / (3600 * secondMicros)

/-- The minute of a time of day. -/
def minuteOf (micros : Nat) : Nat := micros / (60 * secondMicros) % 60

/-- The second of a time of day. -/
def secondOf (micros : Nat) : Nat := micros / secondMicros % 60

/-- The part of a time of day below a second. -/
def fractionOf (micros : Nat) : Nat := micros % secondMicros

/-- The time of day with the given parts. -/
def ofParts (hour minute second fraction : Nat) : Nat :=
  ((hour * 60 + minute) * 60 + second) * secondMicros + fraction

/-- Six digits after a point, when the fraction is not zero. -/
def writeFraction (micros : Nat) : Text :=
  if fractionOf micros = 0 then [] else '.' :: Text.ofNatPadded 6 (fractionOf micros)

/-- Hour and minute. -/
def writeHourMinute (micros : Nat) : Text :=
  Text.ofNatPadded 2 (hourOf micros) ++ [':'] ++ Text.ofNatPadded 2 (minuteOf micros)

/-- Hour, minute and second, and the fraction when it is not zero. -/
def writeClock (micros : Nat) : Text :=
  writeHourMinute micros ++ [':'] ++ Text.ofNatPadded 2 (secondOf micros) ++ writeFraction micros

/-- The offset, with seconds when it is no whole number of minutes. -/
def writeOffset (offset : Int) : Text :=
  let size := offset.natAbs
  (if offset < 0 then '-' else '+') ::
    if size % (60 * secondMicros) = 0 then writeHourMinute size else writeClock size

/-- Year, month and day. -/
def writeDate (d : Date) : Text :=
  Text.ofNatPadded 4 d.year ++ ['-'] ++ Text.ofNatPadded 2 d.month ++ ['-'] ++
    Text.ofNatPadded 2 d.day

/-- The form in which records hold a timestamp. -/
def write (t : Timestamp) : Text :=
  writeDate t.date ++ ['T'] ++ writeClock t.micros ++ writeOffset t.offset

/-- The form in which lists show a timestamp: date, hour and minute, the year not padded. -/
def writeBrief (t : Timestamp) : Text :=
  Text.ofNat t.date.year ++ ['-'] ++ Text.ofNatPadded 2 t.date.month ++ ['-'] ++
    Text.ofNatPadded 2 t.date.day ++ [' '] ++ writeHourMinute t.micros

end Timestamp

end ReplyLedger
