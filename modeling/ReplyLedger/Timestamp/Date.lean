/-!
# Calendar dates

Dates of the Gregorian calendar from year 1 to year 9999. `ordinal` counts days, `next?` is the
following day, and `ordinal_next` says that the two agree.
-/

namespace ReplyLedger

/-- Whether a year has 366 days. -/
def isLeapYear (y : Nat) : Bool := y % 4 == 0 && (y % 100 != 0 || y % 400 == 0)

/-- The number of days of a month. -/
def daysInMonth (year month : Nat) : Nat :=
  match month with
  | 2 => if isLeapYear year then 29 else 28
  | 4 | 6 | 9 | 11 => 30
  | _ => 31

/-- The number of days of a year before a month of it. -/
def daysBeforeMonth (year : Nat) : Nat → Nat
  | 0 => 0
  | 1 => 0
  | month + 1 => daysBeforeMonth year month + daysInMonth year month

/-- The number of days before the first day of a year, from year 1 on. -/
def daysBeforeYear (year : Nat) : Nat :=
  let y := year - 1
  y * 365 + y / 4 - y / 100 + y / 400

/-- The last year of the calendar. -/
def lastYear : Nat := 9999

/-- A day of the calendar. -/
structure Date where
  year : Nat
  month : Nat
  day : Nat
  year_pos : 1 ≤ year
  year_le : year ≤ lastYear
  month_pos : 1 ≤ month
  month_le : month ≤ 12
  day_pos : 1 ≤ day
  day_le : day ≤ daysInMonth year month
  deriving DecidableEq, Repr

namespace Date

/-- Why three numbers are no date. -/
inductive Fault
  | year (given : Nat)
  | month
  | day
  deriving DecidableEq, Repr

/-- The date of a year, month and day, or the first of the numbers that is out of range. -/
def ofNumbers (year month day : Nat) : Except Fault Date :=
  if hy : 1 ≤ year ∧ year ≤ lastYear then
    if hm : 1 ≤ month ∧ month ≤ 12 then
      if hd : 1 ≤ day ∧ day ≤ daysInMonth year month then
        .ok ⟨year, month, day, hy.1, hy.2, hm.1, hm.2, hd.1, hd.2⟩
      else .error .day
    else .error .month
  else .error (.year year)

/-- The number of a day, the first day of year 1 being day 1. -/
def ordinal (d : Date) : Nat := daysBeforeYear d.year + daysBeforeMonth d.year d.month + d.day

theorem one_le_daysInMonth (y m : Nat) : 1 ≤ daysInMonth y m := by
  unfold daysInMonth
  split <;> (try split) <;> omega

/-- The first day of a year. -/
def newYear (year : Nat) (h : 1 ≤ year ∧ year ≤ lastYear) : Date :=
  ⟨year, 1, 1, h.1, h.2, Nat.le_refl 1, Nat.succ_pos 11, Nat.le_refl 1, one_le_daysInMonth year 1⟩

/-- The following day, unless the calendar ends. -/
def next? (d : Date) : Option Date :=
  if h : d.day < daysInMonth d.year d.month then
    some { d with day := d.day + 1, day_pos := by omega, day_le := h }
  else if h : d.month < 12 then
    some { d with
      month := d.month + 1, day := 1, month_pos := by omega, month_le := h, day_pos := by omega
      day_le := one_le_daysInMonth _ _ }
  else if h : d.year < lastYear then
    some { d with
      year := d.year + 1, month := 1, day := 1, year_pos := by omega, year_le := h
      month_pos := by omega, month_le := by omega, day_pos := by omega
      day_le := one_le_daysInMonth _ _ }
  else none

/-- A year has 365 days, a leap year one more. -/
theorem daysBeforeYear_succ {y : Nat} (h : 1 ≤ y) :
    daysBeforeYear (y + 1) = daysBeforeYear y + 365 + if isLeapYear y then 1 else 0 := by
  obtain ⟨z, rfl⟩ := Nat.exists_eq_add_of_le' h
  have h4 : (z + 1) / 4 = z / 4 + if (z + 1) % 4 = 0 then 1 else 0 := by split <;> omega
  have h100 : (z + 1) / 100 = z / 100 + if (z + 1) % 100 = 0 then 1 else 0 := by split <;> omega
  have h400 : (z + 1) / 400 = z / 400 + if (z + 1) % 400 = 0 then 1 else 0 := by split <;> omega
  have hle : z / 100 ≤ z / 4 := by omega
  have h41 : (z + 1) % 100 = 0 → (z + 1) % 4 = 0 := by omega
  have h14 : (z + 1) % 400 = 0 → (z + 1) % 100 = 0 := by omega
  simp only [daysBeforeYear, Nat.add_sub_cancel, isLeapYear, h4, h100, h400]
  generalize z / 4 = a, z / 100 = b, z / 400 = c at *
  by_cases h₁ : (z + 1) % 4 = 0 <;> by_cases h₂ : (z + 1) % 100 = 0 <;>
    by_cases h₃ : (z + 1) % 400 = 0 <;> simp_all <;> omega

/-- The days of the twelve months are those of the year. -/
theorem daysBeforeMonth_december (y : Nat) :
    daysBeforeMonth y 12 + 31 = 365 + if isLeapYear y then 1 else 0 := by
  simp only [daysBeforeMonth, daysInMonth]
  split <;> rfl

/-- The following day has the following number. -/
theorem ordinal_next {d e : Date} (h : d.next? = some e) : e.ordinal = d.ordinal + 1 := by
  have hd := d.day_le
  unfold next? at h
  split at h
  · obtain rfl := Option.some.inj h
    simp only [ordinal]
    omega
  · rename_i hm
    split at h
    · obtain rfl := Option.some.inj h
      obtain ⟨k, hk⟩ := Nat.exists_eq_add_of_le' d.month_pos
      have : daysBeforeMonth d.year (d.month + 1) =
          daysBeforeMonth d.year d.month + daysInMonth d.year d.month := by
        rw [hk]; rfl
      simp only [ordinal]
      omega
    · rename_i hy
      split at h
      · obtain rfl := Option.some.inj h
        have hm12 : d.month = 12 := by have := d.month_le; omega
        have h31 : daysInMonth d.year d.month = 31 := by rw [hm12]; rfl
        have := daysBeforeYear_succ d.year_pos
        have := daysBeforeMonth_december d.year
        simp only [ordinal, hm12]
        have : daysBeforeMonth (d.year + 1) 1 = 0 := rfl
        omega
      · simp at h

end Date

end ReplyLedger
