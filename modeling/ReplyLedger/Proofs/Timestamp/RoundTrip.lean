import ReplyLedger.Timestamp.Iso
import Mathlib.Algebra.Group.Nat.Defs

/-!
# Timestamps there and back

What is written for a timestamp is read as the timestamp (`ofText_write`), unless its offset is less
than a second but not zero: such an offset is read as none (`ofText_write_of_not_isKept`). A number
with zeros in front is read from as many digits as were written (`readDigits?_ofNatPadded`), a clock
part by part up to its fraction (`readClock?_writeClock`), and the sign of the offset is the first
sign after the date.
-/

namespace ReplyLedger

/-! ## Days -/

/-- Three numbers that make a day of the calendar. -/
structure Date.InRange (year month day : Nat) : Prop where
  year_pos : 1 ≤ year
  year_le : year ≤ lastYear
  month_pos : 1 ≤ month
  month_le : month ≤ 12
  day_pos : 1 ≤ day
  day_le : day ≤ daysInMonth year month

/-- The day that three numbers make. -/
def Date.ofInRange {year month day : Nat} (h : InRange year month day) : Date :=
  ⟨year, month, day, h.year_pos, h.year_le, h.month_pos, h.month_le, h.day_pos, h.day_le⟩

theorem Date.inRange_firstDay : InRange 2024 1 1 :=
  ⟨by decide, by decide, by decide, by decide, by decide, by decide⟩

/-- The beginning of a day, in universal time. -/
def Timestamp.midnight (d : Date) : Timestamp := ⟨d, 0, 0, dayMicros_pos, dayMicros_pos⟩

namespace Text

/-- What holds of every digit holds of the digits of a number. -/
theorem forall_mem_toDigits {P : Char → Prop} {b : Nat} (hb : 1 < b)
    (hP : ∀ d < b, P (Nat.digitChar d)) (n : Nat) : ∀ c ∈ Nat.toDigits b n, P c := by
  induction n using Nat.strongRecOn with
  | _ n ih =>
    intro c hc
    rw [Nat.toDigits_eq_if hb] at hc
    split at hc
    · rename_i hn
      rw [List.mem_singleton.1 hc]
      exact hP n hn
    · rename_i hn
      rcases List.mem_append.1 hc with hc | hc
      · exact ih (n / b) (Nat.div_lt_self (by omega) hb) c hc
      · rw [List.mem_singleton.1 hc]
        exact hP (n % b) (Nat.mod_lt n (by omega))

theorem length_ofNatPadded {width n : Nat} (hw : 0 < width) (h : n < 10 ^ width) :
    (ofNatPadded width n).length = width := by
  have hle := (Nat.length_toDigits_le_iff (b := 10) (n := n) (by decide) hw).2 h
  rw [ofNatPadded, List.length_append, List.length_replicate, ofNat]
  omega

theorem isDigit_of_mem_ofNatPadded {width n : Nat} {c : Char} (h : c ∈ ofNatPadded width n) :
    c.isDigit := by
  rcases List.mem_append.1 h with h | h
  · rw [List.eq_of_mem_replicate h]
    rfl
  · exact Nat.isDigit_of_mem_toDigits (by decide) (by decide) h

theorem ofNatPadded_eq_cons {width n : Nat} (hw : 0 < width) (h : n < 10 ^ width) :
    ∃ c t, ofNatPadded width n = c :: t ∧ c.isDigit := by
  have hl := length_ofNatPadded hw h
  obtain ⟨c, t, ht⟩ := List.exists_cons_of_length_pos (l := ofNatPadded width n) (by omega)
  have hc : c ∈ ofNatPadded width n := by
    rw [ht]
    exact List.mem_cons_self
  exact ⟨c, t, ht, isDigit_of_mem_ofNatPadded hc⟩

theorem digitsValue_ofNatPadded (width n : Nat) : digitsValue (ofNatPadded width n) = n := by
  rw [digitsValue, ofNatPadded, Nat.ofDigitChars_append, Nat.ofDigitChars_replicate_zero,
    Nat.mul_zero, ofNat, Nat.ofDigitChars_ten_toDigits]

end Text

namespace Timestamp

/-! ## Digits -/

theorem isDigit_of_isDigit {c : Char} (h : c.isDigit) : isDigit c := by
  simpa [isDigit, Char.isDigit, Char.le_def] using h

/-- A number with zeros in front is read from as many digits as were written. -/
theorem readDigits?_ofNatPadded {width n : Nat} (hw : 0 < width) (h : n < 10 ^ width)
    (rest : Text) : readDigits? width (Text.ofNatPadded width n ++ rest) = some (n, rest) := by
  have hl := Text.length_ofNatPadded hw h
  have htake : (Text.ofNatPadded width n ++ rest).take width = Text.ofNatPadded width n := by
    rw [List.take_append_of_le_length (by omega), List.take_of_length_le (by omega)]
  have hdrop : (Text.ofNatPadded width n ++ rest).drop width = rest := by
    rw [List.drop_append_of_le_length (by omega), List.drop_of_length_le (by omega),
      List.nil_append]
  have hall : (Text.ofNatPadded width n).all isDigit := by
    rw [List.all_eq_true]
    exact fun c hc => isDigit_of_isDigit (Text.isDigit_of_mem_ofNatPadded hc)
  rw [readDigits?]
  simp only [htake, hdrop, hl, hall, Text.digitsValue_ofNatPadded]
  rfl

/-! ## Parts of the day -/

theorem hourOf_lt {micros : Nat} (h : micros < dayMicros) : hourOf micros < 24 := by
  rw [hourOf, Nat.div_lt_iff_lt_mul (by decide)]
  exact h

theorem minuteOf_lt (micros : Nat) : minuteOf micros < 60 := Nat.mod_lt _ (by decide)

theorem secondOf_lt (micros : Nat) : secondOf micros < 60 := Nat.mod_lt _ (by decide)

theorem fractionOf_lt (micros : Nat) : fractionOf micros < 10 ^ 6 := Nat.mod_lt _ (by decide)

/-- A time of day is put together from its parts again. -/
theorem ofParts_of (micros : Nat) : ofParts (hourOf micros) (minuteOf micros) (secondOf micros)
    (fractionOf micros) = micros := by
  simp only [ofParts, hourOf, minuteOf, secondOf, fractionOf, secondMicros]
  omega

/-- Hour and minute are all there is to a whole number of minutes. -/
theorem ofParts_of_minutes {micros : Nat} (h : micros % (60 * secondMicros) = 0) :
    ofParts (hourOf micros) (minuteOf micros) 0 0 = micros := by
  simp only [ofParts, hourOf, minuteOf, secondMicros] at h ⊢
  omega

/-! ## Clocks -/

/-- The parts of a time of day as they are read from what is written for it. -/
def clockOf (stray : Bool) (micros : Nat) : Clock :=
  ⟨hourOf micros, minuteOf micros, secondOf micros, fractionOf micros, stray⟩

theorem readFraction?_ofNatPadded (follows : Bool) (clock : Clock) {n : Nat} (h : n < 10 ^ 6) :
    readFraction? follows clock (Text.ofNatPadded 6 n) =
      some { clock with fraction := n, stray := follows } := by
  have hl := Text.length_ofNatPadded (by decide) h
  have hread := readDigits?_ofNatPadded (by decide) h []
  rw [List.append_nil] at hread
  rw [readFraction?, hl]
  simp [hread, isStray]

theorem afterPart?_colon (follows : Bool) (clock : Clock) {t : Text} (ht : t ≠ [])
    (next : Text → Option Clock) : afterPart? follows true clock (':' :: t) next = next t := by
  cases t with
  | nil => exact absurd rfl ht
  | cons c t => rfl

theorem afterPart?_point (follows : Bool) (clock : Clock) {t : Text} (ht : t ≠ [])
    (next : Text → Option Clock) :
    afterPart? follows true clock ('.' :: t) next = readFraction? follows clock t := by
  cases t with
  | nil => exact absurd rfl ht
  | cons c t => rfl

theorem ofNatPadded_append_ne_nil {width n : Nat} (hw : 0 < width) (h : n < 10 ^ width)
    (t : Text) : Text.ofNatPadded width n ++ t ≠ [] := by
  obtain ⟨c, u, hu, -⟩ := Text.ofNatPadded_eq_cons hw h
  rw [hu]
  exact List.cons_ne_nil _ _

/-- Hour and minute alone are read. -/
theorem readClock?_writeHourMinute (follows : Bool) {micros : Nat} (h : micros < dayMicros) :
    readClock? follows (writeHourMinute micros) =
      some { hour := hourOf micros, minute := minuteOf micros, stray := follows } := by
  have hhour := hourOf_lt h
  have hminute := minuteOf_lt micros
  have htwo : minuteOf micros < 10 ^ 2 := by omega
  have hread := readDigits?_ofNatPadded (by decide) htwo []
  have hne := ofNatPadded_append_ne_nil (by decide) htwo []
  rw [List.append_nil] at hread hne
  rw [writeHourMinute, List.append_assoc, readClock?,
    readDigits?_ofNatPadded (by decide) (by omega)]
  simp only [bind, Option.bind, List.singleton_append, List.head?_cons, BEq.rfl]
  rw [afterPart?_colon _ _ hne, hread]
  rfl

/-- **A time of day is read from what is written for it.** -/
theorem readClock?_writeClock (follows : Bool) {micros : Nat} (h : micros < dayMicros) :
    readClock? follows (writeClock micros) = some (clockOf follows micros) := by
  have hhour := hourOf_lt h
  have hminute := minuteOf_lt micros
  have hsecond := secondOf_lt micros
  have htwo {n : Nat} (hn : n < 60) (t : Text) :
      readDigits? 2 (Text.ofNatPadded 2 n ++ t) = some (n, t) :=
    readDigits?_ofNatPadded (by decide) (by omega) t
  have hne {n : Nat} (hn : n < 60) (t : Text) : Text.ofNatPadded 2 n ++ t ≠ [] :=
    ofNatPadded_append_ne_nil (by decide) (by omega) t
  have htext : writeClock micros = Text.ofNatPadded 2 (hourOf micros) ++ ':' ::
      (Text.ofNatPadded 2 (minuteOf micros) ++ ':' ::
        (Text.ofNatPadded 2 (secondOf micros) ++ writeFraction micros)) := by
    simp [writeClock, writeHourMinute]
  rw [htext, readClock?, htwo (by omega)]
  simp only [bind, Option.bind, List.head?_cons, BEq.rfl]
  rw [afterPart?_colon _ _ (hne hminute _), htwo hminute]
  simp only
  rw [afterPart?_colon _ _ (hne hsecond _), htwo hsecond]
  simp only
  unfold writeFraction
  split
  · rename_i hf
    rw [clockOf, hf]
    rfl
  · have hfraction := ofNatPadded_append_ne_nil (by decide) (fractionOf_lt micros) []
    rw [List.append_nil] at hfraction
    rw [afterPart?_point _ _ hfraction, readFraction?_ofNatPadded _ _ (fractionOf_lt micros)]
    rfl

/-! ## Offsets -/

/-- Whether an offset is kept when it is read: it is none, or at least a second. -/
def IsKept (offset : Int) : Prop := offset = 0 ∨ secondMicros ≤ offset.natAbs

instance (offset : Int) : Decidable (IsKept offset) := inferInstanceAs (Decidable (_ ∨ _))

/-- The next timestamp has the same offset. -/
theorem IsKept.next {t u : Timestamp} (ht : IsKept t.offset) (h : t.next? = some u) :
    IsKept u.offset := by
  unfold next? at h
  split at h
  · obtain rfl := Option.some.inj h
    exact ht
  · obtain ⟨d, -, rfl⟩ := Option.map_eq_some_iff.1 h
    exact ht

/-- The size of an offset is read from what is written for it. -/
theorem readOffset?_cons {sign : Char} (hs : sign = '+' ∨ sign = '-') {body : Text} {c : Clock}
    {size : Nat} (hc : readClock? false body = some c) (hstray : c.stray = false)
    (hsize : ofParts c.hour c.minute c.second c.fraction = size)
    (hk : size = 0 ∨ secondMicros ≤ size) (hf : c.fraction < secondMicros) :
    readOffset? (sign :: body) = some (if sign = '-' then -(size : Int) else size) := by
  have hparts : ofParts c.hour c.minute c.second 0 + c.fraction = size := by
    rw [← hsize]
    simp [ofParts]
  have hread : (if ofParts c.hour c.minute c.second 0 = 0 then (0 : Int)
      else ofParts c.hour c.minute c.second 0 + c.fraction) = size := by
    split
    · omega
    · omega
  have hne : sign ≠ 'Z' := by rcases hs with rfl | rfl <;> decide
  rw [readOffset?]
  · simp only [hc, bind, Option.bind, hstray, hread]
    rfl
  · intro h
    exact hne h

/-- **An offset is read from what is written for it**, if it is kept. -/
theorem readOffset?_writeOffset {offset : Int} (h : offset.natAbs < dayMicros)
    (hk : IsKept offset) : readOffset? (writeOffset offset) = some offset := by
  have hsign : (if offset < 0 then '-' else '+') = '+' ∨
      (if offset < 0 then '-' else '+') = '-' := by split <;> simp
  have hsize : offset.natAbs = 0 ∨ secondMicros ≤ offset.natAbs := by
    rcases hk with rfl | hk
    · exact .inl rfl
    · exact .inr hk
  have hoffset : (if (if offset < 0 then '-' else '+') = '-' then -(offset.natAbs : Int)
      else offset.natAbs) = offset := by
    by_cases hn : offset < 0
    · rw [if_pos hn, if_pos rfl]
      omega
    · rw [if_neg hn, if_neg (by decide)]
      omega
  have hparts := ofParts_of offset.natAbs
  rw [writeOffset]
  by_cases hm : offset.natAbs % (60 * secondMicros) = 0
  · rw [if_pos hm, readOffset?_cons hsign (readClock?_writeHourMinute false h) rfl
      (ofParts_of_minutes hm) hsize (Nat.succ_pos _), hoffset]
  · rw [if_neg hm, readOffset?_cons hsign (readClock?_writeClock false h) rfl hparts hsize
      (fractionOf_lt _), hoffset]

/-- An offset that is not kept is written with a fraction alone, which is read as no offset. -/
theorem readOffset?_writeOffset_of_not_isKept {offset : Int} (hk : ¬ IsKept offset) :
    readOffset? (writeOffset offset) = some 0 := by
  rw [IsKept, not_or, Nat.not_le] at hk
  obtain ⟨h0, hlt⟩ := hk
  rw [secondMicros] at hlt
  have hday : offset.natAbs < dayMicros := Nat.lt_trans hlt (by decide)
  have hbody : offset.natAbs % (60 * secondMicros) ≠ 0 := by
    rw [secondMicros]
    omega
  have hclock : clockOf false offset.natAbs = { fraction := fractionOf offset.natAbs } := by
    simp only [clockOf, hourOf, minuteOf, secondOf, secondMicros, Clock.mk.injEq, and_true]
    omega
  have hne : (if offset < 0 then '-' else '+') ≠ 'Z' := by split <;> decide
  rw [writeOffset]
  simp only [if_neg hbody]
  rw [readOffset?]
  · simp only [readClock?_writeClock false hday, bind, Option.bind, hclock]
    rw [if_neg Bool.false_ne_true]
    have hseconds : ofParts 0 0 0 0 = 0 := rfl
    simp [hseconds]
  · intro h
    exact hne h

/-! ## Times of day with their offsets -/

/-- Whether a character can stand in a time of day. -/
def IsClockChar (c : Char) : Prop := c.isDigit ∨ c = ':' ∨ c = '.'

theorem isClockChar_of_mem_writeHourMinute {micros : Nat} {c : Char}
    (h : c ∈ writeHourMinute micros) : IsClockChar c := by
  simp only [writeHourMinute, List.mem_append, List.mem_singleton] at h
  rcases h with (h | h) | h
  · exact .inl (Text.isDigit_of_mem_ofNatPadded h)
  · exact .inr (.inl h)
  · exact .inl (Text.isDigit_of_mem_ofNatPadded h)

theorem isClockChar_of_mem_writeClock {micros : Nat} {c : Char} (h : c ∈ writeClock micros) :
    IsClockChar c := by
  simp only [writeClock, writeFraction, List.mem_append, List.mem_singleton] at h
  rcases h with ((h | h) | h) | h
  · exact isClockChar_of_mem_writeHourMinute h
  · exact .inr (.inl h)
  · exact .inl (Text.isDigit_of_mem_ofNatPadded h)
  · split at h
    · simp at h
    · rcases List.mem_cons.1 h with h | h
      · exact .inr (.inr h)
      · exact .inl (Text.isDigit_of_mem_ofNatPadded h)

/-- Whether an offset begins at a character. -/
def isSign (c : Char) : Bool := c = '+' || c = '-' || c = 'Z'

theorem isSign_of_isClockChar {c : Char} (h : IsClockChar c) : isSign c = false := by
  rw [isSign, Bool.eq_false_iff]
  intro hs
  simp only [Bool.or_eq_true, decide_eq_true_eq] at hs
  unfold IsClockChar at h
  rcases hs with (rfl | rfl) | rfl <;> exact absurd h (by decide)

/-- The sign of the offset ends the time of day. -/
theorem readTime?_append_cons {time : Text} (ht : ∀ c ∈ time, isSign c = false) {sign : Char}
    (hs : isSign sign = true) (body : Text) : readTime? (time ++ sign :: body) =
      (do
        let c ← readClock? true time
        let offset ← readOffset? (sign :: body)
        return (c, offset)) := by
  have htake : (time ++ sign :: body).takeWhile
      (fun c => !(decide (c = '+') || decide (c = '-') || decide (c = 'Z'))) = time := by
    change (time ++ sign :: body).takeWhile (fun c => !isSign c) = time
    rw [List.takeWhile_append_of_pos (by simpa using ht), List.takeWhile_cons_of_neg (by simp [hs]),
      List.append_nil]
  have hdrop : (time ++ sign :: body).drop time.length = sign :: body := List.drop_left
  rw [readTime?]
  simp only [htake, hdrop]

/-- A time of day and its offset are read from what is written for them, the offset as what is read
for it alone. -/
theorem readTime?_write {micros : Nat} (hm : micros < dayMicros) {offset read : Int}
    (hread : readOffset? (writeOffset offset) = some read) :
    readTime? (writeClock micros ++ writeOffset offset) = some (clockOf true micros, read) := by
  have hcons : ∃ sign body, writeOffset offset = sign :: body ∧ isSign sign = true := by
    refine ⟨_, _, rfl, ?_⟩
    split <;> rfl
  obtain ⟨sign, body, he, hs⟩ := hcons
  rw [he] at hread ⊢
  rw [readTime?_append_cons
      (fun c hc => isSign_of_isClockChar (isClockChar_of_mem_writeClock hc)) hs,
    readClock?_writeClock true hm, hread]
  rfl

/-! ## Dates -/

theorem year_lt (d : Date) : d.year < 10 ^ 4 := Nat.lt_succ_of_le d.year_le

theorem month_lt (d : Date) : d.month < 10 ^ 2 := Nat.lt_of_le_of_lt d.month_le (by decide)

theorem day_lt (d : Date) : d.day < 10 ^ 2 := by
  have hd := d.day_le
  unfold daysInMonth at hd
  split at hd <;> (try split at hd) <;> omega

theorem length_writeDate (d : Date) : (writeDate d).length = 10 := by
  have hyear := Text.length_ofNatPadded (by decide) (year_lt d)
  have hmonth := Text.length_ofNatPadded (by decide) (month_lt d)
  have hday := Text.length_ofNatPadded (by decide) (day_lt d)
  simp [writeDate, hyear, hmonth, hday]

/-- The first ten characters of a written timestamp are its date. -/
theorem dateLength?_writeDate (d : Date) (c : Char) (rest : Text) :
    dateLength? (writeDate d ++ c :: rest) = some 10 := by
  have hl := length_writeDate d
  have hyear := Text.length_ofNatPadded (by decide) (year_lt d)
  obtain ⟨digit, digits, hdigits, hdigit⟩ :=
    Text.ofNatPadded_eq_cons (by decide) (month_lt d)
  have hweek : digit ≠ 'W' := by
    rintro rfl
    exact absurd hdigit (by decide)
  have htext : writeDate d ++ c :: rest = Text.ofNatPadded 4 d.year ++ '-' :: digit ::
      (digits ++ ['-'] ++ Text.ofNatPadded 2 d.day ++ c :: rest) := by
    simp [writeDate, hdigits]
  have hhyphen : (writeDate d ++ c :: rest)[4]? = some '-' := by
    rw [htext, List.getElem?_append_right (by omega), hyear]
    rfl
  have hmark : (writeDate d ++ c :: rest)[5]? = some digit := by
    rw [htext, List.getElem?_append_right (by omega), hyear]
    rfl
  have hlong : (writeDate d ++ c :: rest).length = 11 + rest.length := by
    simp [hl]
    omega
  rw [dateLength?, hlong, if_neg (by omega), if_neg (by omega)]
  simp [hhyphen, hmark, hweek]

/-- The numbers of a date are read from what is written for it. -/
theorem readDate?_writeDate (d : Date) (rest : Text) :
    readDate? 10 (writeDate d ++ rest) = some (d.year, d.month, d.day) := by
  have htext : writeDate d ++ rest = Text.ofNatPadded 4 d.year ++ '-' ::
      (Text.ofNatPadded 2 d.month ++ '-' :: (Text.ofNatPadded 2 d.day ++ rest)) := by
    simp [writeDate]
  rw [htext, readDate?, readDigits?_ofNatPadded (by decide) (year_lt d)]
  simp only [bind, Option.bind, List.head?_cons, BEq.rfl, if_true, List.drop_succ_cons,
    List.drop_zero]
  split
  · rename_i he
    obtain ⟨digit, digits, hdigits, hdigit⟩ :=
      Text.ofNatPadded_eq_cons (by decide) (month_lt d)
    rw [hdigits, List.cons_append] at he
    rw [(List.cons.inj he).1] at hdigit
    exact absurd hdigit (by decide)
  · rw [readDigits?_ofNatPadded (by decide) (month_lt d)]
    simp only [List.head?_cons, BEq.rfl, if_true, List.drop_one, List.tail_cons]
    rw [readDigits?_ofNatPadded (by decide) (day_lt d)]
    rfl

theorem ofNumbers_self (d : Date) : Date.ofNumbers d.year d.month d.day = .ok d := by
  rw [Date.ofNumbers, dif_pos ⟨d.year_pos, d.year_le⟩, dif_pos ⟨d.month_pos, d.month_le⟩,
    dif_pos ⟨d.day_pos, d.day_le⟩]

/-! ## Timestamps -/

/-- A text of ASCII characters is spread out already. -/
theorem spread_of_ascii {t : Text} (h : ∀ c ∈ t, c.toNat < 0x80) : spread t = t := by
  induction t with
  | nil => rfl
  | cons c t ih =>
    have hc := h c List.mem_cons_self
    have hbyte : (UInt8.ofNat c.toNat).toNat = c.toNat := by
      rw [UInt8.toNat_ofNat']
      omega
    have ih := ih fun c hc => h c (List.mem_cons_of_mem _ hc)
    rw [spread] at ih
    rw [spread, List.flatMap_cons, ih, Utf8.encodeChar]
    simp only [hc, if_true]
    rw [List.map_singleton, hbyte, Char.ofNat_toNat, List.singleton_append]

theorem toNat_lt_of_isDigit {c : Char} (h : c.isDigit) : c.toNat < 0x80 := by
  simp only [Char.isDigit, Bool.and_eq_true, decide_eq_true_eq] at h
  exact Nat.lt_of_le_of_lt (UInt32.le_iff_toNat_le.1 h.2) (by decide)

theorem toNat_lt_of_isClockChar {c : Char} (h : IsClockChar c) : c.toNat < 0x80 := by
  rcases h with h | rfl | rfl
  · exact toNat_lt_of_isDigit h
  · decide
  · decide

theorem toNat_lt_of_mem_writeDate {d : Date} {c : Char} (h : c ∈ writeDate d) :
    c.toNat < 0x80 := by
  simp only [writeDate, List.mem_append, List.mem_singleton] at h
  rcases h with (((h | rfl) | h) | rfl) | h
  · exact toNat_lt_of_isDigit (Text.isDigit_of_mem_ofNatPadded h)
  · decide
  · exact toNat_lt_of_isDigit (Text.isDigit_of_mem_ofNatPadded h)
  · decide
  · exact toNat_lt_of_isDigit (Text.isDigit_of_mem_ofNatPadded h)

theorem toNat_lt_of_mem_writeOffset {offset : Int} {c : Char} (h : c ∈ writeOffset offset) :
    c.toNat < 0x80 := by
  rcases List.mem_cons.1 h with rfl | h
  · split <;> decide
  · split at h
    · exact toNat_lt_of_isClockChar (isClockChar_of_mem_writeHourMinute h)
    · exact toNat_lt_of_isClockChar (isClockChar_of_mem_writeClock h)

theorem toNat_lt_of_mem_write {t : Timestamp} {c : Char} (h : c ∈ t.write) : c.toNat < 0x80 := by
  simp only [write, List.mem_append, List.mem_singleton] at h
  rcases h with ((h | rfl) | h) | h
  · exact toNat_lt_of_mem_writeDate h
  · decide
  · exact toNat_lt_of_isClockChar (isClockChar_of_mem_writeClock h)
  · exact toNat_lt_of_mem_writeOffset h

/-- A timestamp is read from what is written for it, at the offset that is read for its own. -/
theorem ofText_write_of_readOffset? {t : Timestamp} {offset : Int} (ho : offset.natAbs < dayMicros)
    (hread : readOffset? (writeOffset t.offset) = some offset) :
    ofText t.write = .ok { t with offset, offset_lt := ho } := by
  have htext : t.write =
      writeDate t.date ++ 'T' :: (writeClock t.micros ++ writeOffset t.offset) := by
    simp [write]
  have htail : (writeDate t.date ++ 'T' :: (writeClock t.micros ++ writeOffset t.offset)).drop 10 =
      'T' :: (writeClock t.micros ++ writeOffset t.offset) := by
    rw [← length_writeDate t.date, List.drop_left]
  have hnumbers : readNumbers? (spread t.write) =
      some ((t.date.year, t.date.month, t.date.day), clockOf true t.micros, offset) := by
    rw [spread_of_ascii fun c hc => toNat_lt_of_mem_write hc, htext, readNumbers?,
      dateLength?_writeDate]
    simp only [bind, Option.bind, readDate?_writeDate, htail, List.isEmpty_cons]
    rw [if_neg (by simp)]
    have hsep : afterSeparator ('T' :: (writeClock t.micros ++ writeOffset t.offset)) =
      writeClock t.micros ++ writeOffset t.offset := rfl
    rw [hsep, readTime?_write t.micros_lt hread]
    rfl
  have hhour := Nat.le_of_lt_succ (hourOf_lt t.micros_lt)
  have hminute := Nat.le_of_lt_succ (minuteOf_lt t.micros)
  have hsecond := Nat.le_of_lt_succ (secondOf_lt t.micros)
  rw [ofText, hnumbers]
  simp only [clockOf, ofNumbers_self, dif_pos ho, bind, Except.bind,
    hhour, hminute, hsecond, if_true, ofParts_of, dif_pos t.micros_lt]
  rfl

/-- **A timestamp is read from what is written for it**, if its offset is kept. -/
theorem ofText_write {t : Timestamp} (hk : IsKept t.offset) : ofText t.write = .ok t :=
  ofText_write_of_readOffset? t.offset_lt (readOffset?_writeOffset t.offset_lt hk)

/-- The same date and time of day in universal time. -/
def withoutOffset (t : Timestamp) : Timestamp := { t with offset := 0, offset_lt := dayMicros_pos }

/-- **An offset that is not kept is lost**: the timestamp is read as one in universal time. -/
theorem ofText_write_of_not_isKept {t : Timestamp} (hk : ¬ IsKept t.offset) :
    ofText t.write = .ok t.withoutOffset := by
  have ho : (0 : Int).natAbs < dayMicros := dayMicros_pos
  exact ofText_write_of_readOffset? ho (readOffset?_writeOffset_of_not_isKept hk)

end Timestamp

end ReplyLedger
