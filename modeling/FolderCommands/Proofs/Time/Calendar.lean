import FolderCommands.Time.Instant
import Mathlib.Tactic.SplitIfs

/-!
# The calendar

A number of days and its date are the same thing: a date that is computed is one of the calendar,
and counting up to it gives the number back. Years are taken to start in March and are counted in
eras of 400, so that all eras have the same days.
-/

namespace FolderCommands.Date

/-- The days of an era before one of its years. -/
def daysBefore (year : Int) : Int :=
  365 * year + year / 4 - year / 100

/-- A day of an era without the leap days before it. -/
def withoutLeapDays (day : Int) : Int :=
  day - day / 1460 + day / 36524 - day / 146096

/-- The month of a day of the year, counted from March as zero. -/
def monthOfDay (day : Int) : Int :=
  (5 * day + 2) / 153

/-- The day of the month of a day of the year. -/
def dayOfMonth (day : Int) : Int :=
  day - (153 * monthOfDay day + 2) / 5 + 1

/-- The number of a month that is counted from March. -/
def realMonth (month : Int) : Int :=
  if month < 10 then month + 3 else month - 9

/-- The date of a day of a year of an era. -/
def ofParts (era year day : Int) : Date :=
  let month := realMonth (monthOfDay day)
  ⟨if month ≤ 2 then year + era * 400 + 1 else year + era * 400, month.toNat,
    (dayOfMonth day).toNat⟩

/-- Whether a date has a month and a day of that month. -/
def IsInCalendar (d : Date) : Prop :=
  1 ≤ d.month ∧ d.month ≤ 12 ∧ 1 ≤ d.day ∧ d.day ≤ monthLength d.year d.month

/-! ## Years -/

theorem isLeapYear_iff {year : Int} :
    isLeapYear year = true ↔ year % 4 = 0 ∧ (year % 100 ≠ 0 ∨ year % 400 = 0) := by
  simp [isLeapYear]

theorem withoutLeapDays_mono {a b : Int} (h : a ≤ b) : withoutLeapDays a ≤ withoutLeapDays b := by
  unfold withoutLeapDays
  omega

/-- Without leap days a year starts at a multiple of 365 days or after it, and the day before at
an earlier one. -/
theorem withoutLeapDays_daysBefore {year : Int} (hnonneg : 0 ≤ year) (hlt : year < 400) :
    365 * year ≤ withoutLeapDays (daysBefore year) ∧
      (0 < year → withoutLeapDays (daysBefore year - 1) < 365 * year) := by
  have hall : ∀ n : Nat, n < 400 → 365 * (n : Int) ≤ withoutLeapDays (daysBefore n) ∧
      (0 < (n : Int) → withoutLeapDays (daysBefore n - 1) < 365 * (n : Int)) := by
    decide +kernel
  obtain ⟨n, rfl⟩ := Int.eq_ofNat_of_zero_le hnonneg
  exact hall n (by omega)

/-- A day of an era lies in the year that is computed for it. -/
theorem year_bounds {day year : Int} (hnonneg : 0 ≤ day) (hle : day ≤ 146096)
    (hyear : year = withoutLeapDays day / 365) :
    0 ≤ year ∧ year < 400 ∧ daysBefore year ≤ day ∧ (year < 399 → day < daysBefore (year + 1)) := by
  have hfirst : withoutLeapDays 0 = 0 := by decide
  have hlast : withoutLeapDays 146096 = 145999 := by decide
  have hmin := withoutLeapDays_mono hnonneg
  have hmax := withoutLeapDays_mono hle
  have hpos : 0 ≤ year := by omega
  have hlt : year < 400 := by omega
  refine ⟨hpos, hlt, Int.not_lt.1 fun hearly ↦ ?_, fun hbefore ↦ Int.not_le.1 fun hlate ↦ ?_⟩
  · -- a day before the year is counted to an earlier one
    have hstart : 0 < year := by
      unfold daysBefore at hearly
      omega
    have hbound := (withoutLeapDays_daysBefore hpos hlt).2 hstart
    have hmono := withoutLeapDays_mono (Int.le_sub_one_of_lt hearly)
    omega
  · -- a day of the year after is counted to that
    have hbound := (withoutLeapDays_daysBefore (Int.le_add_one hpos) (by omega)).1
    have hmono := withoutLeapDays_mono hlate
    omega

/-- The parts of a number of days. Only a year that ends in a leap February has a day 365. -/
theorem exists_parts (days : Int) : ∃ era year day,
    days + 719468 = era * 146097 + daysBefore year + day ∧ 0 ≤ year ∧ year < 400 ∧ 0 ≤ day ∧
      day ≤ 365 ∧ (day = 365 → isLeapYear (year + era * 400 + 1) = true) ∧
        ofDays days = ofParts era year day := by
  have hday : 0 ≤ (days + 719468) % 146097 ∧ (days + 719468) % 146097 ≤ 146096 := by omega
  have hparts : days + 719468 =
      (days + 719468) / 146097 * 146097 + (days + 719468) % 146097 := by omega
  have heq : ofDays days = ofParts ((days + 719468) / 146097)
      (withoutLeapDays ((days + 719468) % 146097) / 365) ((days + 719468) % 146097 -
        daysBefore (withoutLeapDays ((days + 719468) % 146097) / 365)) := rfl
  generalize (days + 719468) / 146097 = era at *
  generalize (days + 719468) % 146097 = day at *
  obtain ⟨hpos, hlt, hle, hnext⟩ := year_bounds hday.1 hday.2 rfl
  generalize withoutLeapDays day / 365 = year at *
  refine ⟨era, year, day - daysBefore year, by omega, hpos, hlt, by omega, ?_, ?_, heq⟩
  · unfold daysBefore at *
    omega
  · intro hlast
    have hleap : (year + 1) % 4 = 0 ∧ ((year + 1) % 100 ≠ 0 ∨ year = 399) := by
      clear heq hparts
      unfold daysBefore at *
      by_cases hend : year = 399
      · omega
      · have hnext := hnext (by omega)
        have hquarter : (year + 1) % 4 ≠ 0 → (year + 1) / 4 = year / 4 := by omega
        have hquarter' : (year + 1) / 4 ≤ year / 4 + 1 := by omega
        have hcentury : (year + 1) % 100 = 0 → (year + 1) / 100 = year / 100 + 1 := by omega
        have hcentury' : year / 100 ≤ (year + 1) / 100 := by omega
        generalize (year + 1) / 4 = quarter at *
        generalize (year + 1) / 100 = century at *
        omega
    rw [isLeapYear_iff]
    clear heq hparts hnext
    omega

/-! ## Months and days -/

theorem month_bounds {day : Int} (hnonneg : 0 ≤ day) (hle : day ≤ 365) :
    0 ≤ monthOfDay day ∧ monthOfDay day ≤ 11 ∧ 1 ≤ dayOfMonth day := by
  unfold dayOfMonth monthOfDay
  omega

theorem toDays_ofParts {era year day : Int} (hyear : 0 ≤ year) (hlt : year < 400)
    (hday : 0 ≤ day) (hle : day ≤ 365) :
    (ofParts era year day).toDays = era * 146097 + daysBefore year + day - 719468 := by
  obtain ⟨hmonth, hmonth', hfirst⟩ := month_bounds hday hle
  have hdef : dayOfMonth day = day - (153 * monthOfDay day + 2) / 5 + 1 := rfl
  unfold ofParts toDays realMonth daysBefore
  generalize monthOfDay day = month at *
  generalize dayOfMonth day = dayOf at *
  dsimp only
  split_ifs <;> omega

theorem monthLength_le (year : Int) (month : Nat) : monthLength year month ≤ 31 := by
  unfold monthLength
  split_ifs <;> decide

theorem realMonth_bounds {day : Int} (hnonneg : 0 ≤ day) (hle : day ≤ 365) :
    1 ≤ realMonth (monthOfDay day) ∧ realMonth (monthOfDay day) ≤ 12 := by
  obtain ⟨hmonth, hmonth', -⟩ := month_bounds hnonneg hle
  unfold realMonth
  split_ifs <;> omega

/-- Every day of a year lies in its month; 29 February is the last of them. -/
theorem dayOfMonth_le {year day : Int} (hnonneg : 0 ≤ day) (hle : day ≤ 365)
    (hleap : day = 365 → isLeapYear year = true) :
    dayOfMonth day ≤ monthLength year (realMonth (monthOfDay day)).toNat := by
  have hall : ∀ n : Nat, n < 366 →
      if (realMonth (monthOfDay n)).toNat = 2 then dayOfMonth n ≤ if n = 365 then 29 else 28
      else dayOfMonth n ≤ monthLength 0 (realMonth (monthOfDay n)).toNat := by
    decide +kernel
  obtain ⟨n, rfl⟩ := Int.eq_ofNat_of_zero_le hnonneg
  have hlength := hall n (by omega)
  by_cases hmonth : (realMonth (monthOfDay n)).toNat = 2
  · rw [if_pos hmonth] at hlength
    rw [monthLength, if_pos hmonth]
    by_cases hlast : n = 365
    · rw [if_pos hlast] at hlength
      rw [if_pos (hleap (by omega))]
      exact hlength
    · rw [if_neg hlast] at hlength
      split_ifs <;> omega
  · -- no other month depends on the year
    rw [if_neg hmonth, monthLength, if_neg hmonth] at hlength
    rw [monthLength, if_neg hmonth]
    exact hlength

theorem isInCalendar_ofParts {era year day : Int} (hday : 0 ≤ day) (hle : day ≤ 365)
    (hleap : day = 365 → isLeapYear (year + era * 400 + 1) = true) :
    (ofParts era year day).IsInCalendar := by
  obtain ⟨hfirst, hlast⟩ := realMonth_bounds hday hle
  obtain ⟨-, -, hpos⟩ := month_bounds hday hle
  have hlength : dayOfMonth day ≤ monthLength (ofParts era year day).year
      (realMonth (monthOfDay day)).toNat :=
    dayOfMonth_le hday hle fun heq ↦ by
      subst heq
      exact hleap rfl
  refine ⟨?_, ?_, ?_, ?_⟩
  · change 1 ≤ (realMonth (monthOfDay day)).toNat
    omega
  · change (realMonth (monthOfDay day)).toNat ≤ 12
    omega
  · change 1 ≤ (dayOfMonth day).toNat
    omega
  · change (dayOfMonth day).toNat ≤ monthLength _ (realMonth (monthOfDay day)).toNat
    omega

theorem toDays_ofDays (days : Int) : (ofDays days).toDays = days := by
  obtain ⟨era, year, day, hparts, hyear, hlt, hday, hle, -, heq⟩ := exists_parts days
  rw [heq, toDays_ofParts hyear hlt hday hle]
  omega

theorem isInCalendar_ofDays (days : Int) : (ofDays days).IsInCalendar := by
  obtain ⟨era, year, day, -, -, -, hday, hle, hleap, heq⟩ := exists_parts days
  rw [heq]
  exact isInCalendar_ofParts hday hle hleap

end FolderCommands.Date
