import ReplyLedger.Text.Quoted
import ReplyLedger.Text.Utf8
import ReplyLedger.Timestamp.Basic

/-!
# Reading timestamps

`Timestamp.ofText` reads the ISO 8601 forms of a timestamp: a calendar date or a week date, with or
without hyphens; then, after any one character, a time of day, with or without colons, that may stop
after the hour or the minute and may have a fraction of a second; then an offset, in the form of a
time of day after its sign, or `Z`. Digits of a fraction after the sixth are dropped. A timestamp
without an offset is in universal time, and so is one whose offset is less than a second.

Where the date ends is told from its first characters. Places in the text are counted in bytes of
UTF-8, so the text is first spread out to one character a byte. Two liberties belong to the format:
one stray character may stand between a time of day and its offset, and a text may end in a NUL.
-/

namespace ReplyLedger.Timestamp

/-- Why a text is no timestamp. -/
inductive Fault
  /-- It has none of the forms. -/
  | form (given : Text)
  /-- Its offset, in microseconds, is a day or more. -/
  | offset (micros : Int)
  | date (fault : Date.Fault)
  | hour
  | minute
  | second
  deriving DecidableEq, Repr

/-- A span of time by its whole days, seconds and microseconds, those that are not zero. -/
def writeSpan (micros : Int) : Text :=
  let days := micros / dayMicros
  let inDay := (micros % dayMicros).toNat
  let parts : List (Text × Int) :=
    [("days=", days), ("seconds=", inDay / secondMicros), ("microseconds=", fractionOf inDay)]
  let parts := (parts.filter fun p => p.2 ≠ 0).map fun p => p.1 ++ Text.ofInt p.2
  "datetime.timedelta(" ++ (if parts.isEmpty then ['0'] else Text.joinWith ", " parts) ++ ")"

/-- The message about a text that is no timestamp. -/
def Fault.message : Fault → Text
  | .form given => "Invalid isoformat string: " ++ Text.quote given
  | .offset micros =>
    "offset must be a timedelta strictly between -timedelta(hours=24) and " ++
      "timedelta(hours=24), not " ++ writeSpan micros ++ "."
  | .date (.year y) => "year " ++ Text.ofNat y ++ " is out of range"
  | .date .month => "month must be in 1..12"
  | .date .day => "day is out of range for month"
  | .hour => "hour must be in 0..23"
  | .minute => "minute must be in 0..59"
  | .second => "second must be in 0..59"

/-- Whether `c` is one of the ten digits. -/
def isDigit (c : Char) : Bool := '0' ≤ c && c ≤ '9'

/-- A number of exactly `count` digits, and the rest. -/
def readDigits? (count : Nat) (t : Text) : Option (Nat × Text) :=
  let ds := t.take count
  if ds.length = count && ds.all isDigit then some (Text.digitsValue ds, t.drop count) else none

/-- The text with each character spread out to its bytes. -/
def spread (t : Text) : Text :=
  t.flatMap fun c => (Utf8.encodeChar c).map fun b => Char.ofNat b.toNat

/-! ## Dates -/

/-- The number of characters of the date that a text begins with. -/
def dateLength? (t : Text) : Option Nat :=
  let isHyphen (i : Nat) : Bool := t[i]? == some '-'
  let isWeekMark (i : Nat) : Bool := t[i]? == some 'W'
  if t.length < 7 then none
  else if t.length = 7 then some 7
  else if isHyphen 4 then
    if isWeekMark 5 then
      if isHyphen 8 then
        if t.length = 9 then none
        else if (t[10]?).any isDigit then some 8
        else some 10
      else some 8
    else some 10
  else if isWeekMark 4 then
    let digits := ((t.drop 7).takeWhile isDigit).length
    if digits < 2 then some (7 + digits)
    else if digits % 2 = 1 then some 7
    else some 8
  else some 8

/-- The day of the week of the first of January, Monday being 0. -/
def firstWeekday (year : Nat) : Nat := daysBeforeYear year % 7

/-- Whether a year has a week 53: when it begins on a Thursday, or on a Wednesday with a leap
day to come. -/
def hasWeek53 (year : Nat) : Bool :=
  1 ≤ year && (firstWeekday year == 3 || (firstWeekday year == 2 && isLeapYear year))

/-- The month and day of a day of a year, counted from 0. -/
def monthAndDay (year n : Nat) : Nat × Nat :=
  let month := 1 + (List.range' 2 11).countP fun m => daysBeforeMonth year m ≤ n
  (month, n - daysBeforeMonth year month + 1)

/-- Year, month and day of a day of a week; week 1 is the one with the year's first Thursday. A week
of year 0 has no month. -/
def weekDate? (year week day : Nat) : Option (Nat × Nat × Nat) :=
  let weekOk := (1 ≤ week && week ≤ 52) || (week == 53 && hasWeek53 year)
  if weekOk && 1 ≤ day && day ≤ 7 then
    if year = 0 then some (1, 0, 1)
    else
      let first := firstWeekday year
      let n : Int := (week - 1) * 7 + (day - 1) - first + (if 3 < first then 7 else 0)
      let size : Int := if isLeapYear year then 366 else 365
      if n < 0 then some (year - 1, 12, (32 + n).toNat)
      else if size ≤ n then some (year + 1, 1, (n - size + 1).toNat)
      else
        let (m, d) := monthAndDay year n.toNat
        some (year, m, d)
  else none

/-- Year, month and day of a date of `length` characters. -/
def readDate? (length : Nat) (t : Text) : Option (Nat × Nat × Nat) := do
  let (year, t) ← readDigits? 4 t
  let hyphens := t.head? == some '-'
  let t := if hyphens then t.drop 1 else t
  let afterHyphen (t : Text) : Option Text :=
    if hyphens then (if t.head? == some '-' then some (t.drop 1) else none) else some t
  match t with
  | 'W' :: t =>
    let (week, t) ← readDigits? 2 t
    if (if hyphens then 8 else 7) < length then
      let t ← afterHyphen t
      let (day, _) ← readDigits? 1 t
      weekDate? year week day
    else weekDate? year week 1
  | t =>
    let (month, t) ← readDigits? 2 t
    let t ← afterHyphen t
    let (day, _) ← readDigits? 2 t
    return (year, month, day)

/-! ## Times of day -/

/-- The parts of a time of day as they were read, and whether a stray character followed. -/
structure Clock where
  hour : Nat := 0
  minute : Nat := 0
  second : Nat := 0
  fraction : Nat := 0
  stray : Bool := false
  deriving DecidableEq, Repr

/-- Whether the rest of a time of day is more than its end; `follows` says whether an offset comes
after it. -/
def isStray (follows : Bool) : Text → Bool
  | [] => follows
  | c :: _ => c ≠ '\x00'

/-- The fraction of a second at the end of a time of day. -/
def readFraction? (follows : Bool) (clock : Clock) (t : Text) : Option Clock := do
  let count := min 6 t.length
  let (n, rest) ← readDigits? count t
  return { clock with
    fraction := n * Nat.pow 10 (6 - count)
    stray := isStray follows (rest.dropWhile isDigit) }

/-- What comes after a two-digit part of a time of day: `next` reads the following part, or, where
the parts are not divided by colons, the same text from here on. -/
def afterPart? (follows colons : Bool) (clock : Clock) (t : Text) (next : Text → Option Clock) :
    Option Clock :=
  match t with
  | [] => some { clock with stray := follows }
  | [c] => some { clock with stray := c ≠ '\x00' }
  | c :: rest =>
    if colons && c = ':' then next rest
    else if c = '.' || c = ',' then readFraction? follows clock rest
    else if colons then none
    else next t

/-- A time of day that fills the text `t`. -/
def readClock? (follows : Bool) (t : Text) : Option Clock := do
  let (hour, t) ← readDigits? 2 t
  let colons := t.head? == some ':'
  afterPart? follows colons { hour } t fun t => do
    let (minute, t) ← readDigits? 2 t
    afterPart? follows colons { hour, minute } t fun t => do
      let (second, t) ← readDigits? 2 t
      afterPart? follows colons { hour, minute, second } t fun t =>
        readFraction? follows { hour, minute, second } t

/-- An offset, from its sign on, in microseconds. -/
def readOffset? : Text → Option Int
  | 'Z' :: t => if isStray false t then none else some 0
  | sign :: t => do
    let c ← readClock? false t
    if c.stray then none
    else
      let seconds := ofParts c.hour c.minute c.second 0
      let size : Int := if seconds = 0 then 0 else seconds + c.fraction
      return if sign = '-' then -size else size
  | [] => none

/-- A time of day and its offset. -/
def readTime? (t : Text) : Option (Clock × Int) :=
  let isSign (c : Char) : Bool := c = '+' || c = '-' || c = 'Z'
  let time := t.takeWhile fun c => !isSign c
  match t.drop time.length with
  | [] => do
    let c ← readClock? false time
    if c.stray then none else return (c, 0)
  | signed => do
    let c ← readClock? true time
    let offset ← readOffset? signed
    return (c, offset)

/-- The rest of a text after the one character, of as many bytes as it has, that ends a date. -/
def afterSeparator : Text → Text
  | [] => []
  | c :: t => t.drop (if c.toNat < 0x80 then 0 else if c.toNat < 0xE0 then 1
      else if c.toNat < 0xF0 then 2 else 3)

/-- The numbers of a timestamp, before their ranges are checked. -/
def readNumbers? (t : Text) : Option ((Nat × Nat × Nat) × Clock × Int) := do
  let length ← dateLength? t
  let date ← readDate? length t
  let tail := t.drop length
  if tail.isEmpty then return (date, {}, 0)
  else
    let time ← readTime? (afterSeparator tail)
    return (date, time)

/-- The timestamp of a text. -/
def ofText (given : Text) : Except Fault Timestamp :=
  match readNumbers? (spread given) with
  | none => .error (.form given)
  | some ((year, month, day), c, offset) =>
    if ho : offset.natAbs < dayMicros then do
      let date ← (Date.ofNumbers year month day).mapError .date
      if c.hour ≤ 23 then
        if c.minute ≤ 59 then
          if c.second ≤ 59 then
            let micros := ofParts c.hour c.minute c.second c.fraction
            if hm : micros < dayMicros then return ⟨date, micros, offset, hm, ho⟩
            else .error (.form given)
          else .error .second
        else .error .minute
      else .error .hour
    else .error (.offset offset)

end ReplyLedger.Timestamp
