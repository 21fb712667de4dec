import DomainModel.Calendar
import Mathlib.Data.Nat.ModEq
import Mathlib.Order.Monotone.Basic
import Mathlib.Tactic.IntervalCases
/-!
# The Gregorian calendar

The days of months and years are counted one after another, and a date is told by the days that lie
before it. Each day from the beginning of year 0 on gets the date that so many days lie before, and
later dates come after more days.
-/
namespace DomainModel

namespace Gregorian

/-- Every fourth year is a leap year, but of the full centuries only every fourth. -/
def isLeap (year : Nat) : Bool := year % 4 == 0 && (year % 100 != 0 || year % 400 == 0)

def daysInYear (year : Nat) : Nat := if isLeap year then 366 else 365

def daysInMonth (year : Nat) : Nat → Nat
  | 2 => if isLeap year then 29 else 28
  | 4 | 6 | 9 | 11 => 30
  | _ => 31

/-- The days from the beginning of year 0 to that of a year. -/
def daysBeforeYear : Nat → Nat
  | 0 => 0
  | year + 1 => daysBeforeYear year + daysInYear year

/-- The days of a year before one of its months. -/
def daysBeforeMonth (year : Nat) : Nat → Nat
  | 0 | 1 => 0
  | month + 2 => daysBeforeMonth year (month + 1) + daysInMonth year (month + 1)

/-- The calendar has the date. -/
structure IsDate (year month day : Nat) : Prop where
  month_pos : 1 ≤ month
  month_le : month ≤ 12
  day_pos : 1 ≤ day
  day_le : day ≤ daysInMonth year month

instance (year month day : Nat) : Decidable (IsDate year month day) :=
  decidable_of_iff (1 ≤ month ∧ month ≤ 12 ∧ 1 ≤ day ∧ day ≤ daysInMonth year month)
    ⟨fun ⟨h, h', h'', h'''⟩ => ⟨h, h', h'', h'''⟩, fun ⟨h, h', h'', h'''⟩ => ⟨h, h', h'', h'''⟩⟩

/-- The days from 1 January 1970 to a date. -/
def dayNumber (year month day : Nat) : Int :=
  (daysBeforeYear year + daysBeforeMonth year month + (day - 1) : Nat) - (daysBeforeYear 1970 : Nat)

/-! ## Years and months in a row -/

private theorem isLeap_cases (year : Nat) :
    isLeap year = true ∧ year % 4 = 0 ∧ (year % 100 = 0 ↔ year % 400 = 0) ∨
      isLeap year = false ∧ (year % 4 = 0 ↔ year % 100 = 0) ∧ year % 400 ≠ 0 := by
  have hleap : isLeap year = true ↔ year % 4 = 0 ∧ (year % 100 ≠ 0 ∨ year % 400 = 0) := by
    simp [isLeap]
  cases h : isLeap year with
  | false =>
    simp only [h, Bool.false_eq_true, false_iff] at hleap
    exact .inr ⟨rfl, by omega⟩
  | true =>
    simp only [h, true_iff] at hleap
    exact .inl ⟨rfl, by omega⟩

/-- The multiples of 4 up to a year less those of 100 and with those of 400. -/
private def leapDays (year : Nat) : Nat := year / 4 - year / 100 + year / 400

private theorem leapDays_succ (year : Nat) :
    leapDays (year + 1) = leapDays year + if isLeap (year + 1) then 1 else 0 := by
  have hcenturies : year / 100 ≤ year / 4 := Nat.div_le_div_left (by decide) (by decide)
  rw [leapDays, leapDays, Nat.succ_div, Nat.succ_div, Nat.succ_div]
  simp only [Nat.dvd_iff_mod_eq_zero]
  rcases isLeap_cases (year + 1) with ⟨hleap, hfour, hhundred⟩ | ⟨hleap, hfour, hhundred⟩
  · simp only [hleap, hfour, hhundred, if_true]
    split <;> omega
  · simp only [hleap, hfour, hhundred]
    split <;> simp

private theorem daysBeforeMarch (year : Nat) :
    daysBeforeYear year + (if isLeap year then 60 else 59) = 365 * year + leapDays year + 60 := by
  induction year with
  | zero => rfl
  | succ year ih =>
    rw [daysBeforeYear, daysInYear, leapDays_succ]
    cases hyear : isLeap year <;> cases hnext : isLeap (year + 1) <;>
      simp only [hyear, if_true, Bool.false_eq_true, if_false] at ih ⊢ <;> omega

theorem daysBeforeYear_epoch : daysBeforeYear 1970 = 719528 := by
  have hmarch := daysBeforeMarch 1970
  rw [if_neg (by decide), leapDays] at hmarch
  omega

theorem daysBeforeMonth_succ (year : Nat) {month : Nat} (h : 1 ≤ month) :
    daysBeforeMonth year (month + 1) = daysBeforeMonth year month + daysInMonth year month := by
  obtain ⟨month, rfl⟩ := Nat.exists_eq_add_of_le' h
  rfl

theorem daysBeforeMonth_thirteen (year : Nat) : daysBeforeMonth year 13 = daysInYear year := by
  unfold daysInYear
  cases h : isLeap year <;> simp [daysBeforeMonth, daysInMonth, h]

theorem daysInMonth_le (year month : Nat) : daysInMonth year month ≤ 31 := by
  unfold daysInMonth
  split
  · split <;> decide
  all_goals decide

theorem daysBeforeMonth_mono (year : Nat) : Monotone (daysBeforeMonth year) := by
  apply monotone_nat_of_le_succ
  intro month
  cases month with
  | zero => exact Nat.le_refl 0
  | succ month =>
    rw [daysBeforeMonth_succ year (Nat.le_add_left 1 month)]
    exact Nat.le_add_right _ _

theorem daysBeforeYear_mono : Monotone daysBeforeYear :=
  monotone_nat_of_le_succ fun _ => Nat.le_add_right _ _

theorem le_daysBeforeYear (year : Nat) : 365 * year ≤ daysBeforeYear year := by
  have hmarch := daysBeforeMarch year
  split at hmarch <;> omega

private theorem fromMarch (year : Nat) {k : Nat} (hk : k < 12) :
    daysBeforeYear (if k < 10 then year else year + 1) +
        daysBeforeMonth (if k < 10 then year else year + 1) (if k < 10 then k + 3 else k - 9) =
          daysBeforeYear year + (if isLeap year then 60 else 59) + (153 * k + 2) / 5 ∧
      daysInMonth (if k < 10 then year else year + 1) (if k < 10 then k + 3 else k - 9) =
        if k = 11 then (if isLeap (year + 1) then 29 else 28)
        else (153 * (k + 1) + 2) / 5 - (153 * k + 2) / 5 := by
  -- the months from March on repeat the lengths of five months, so that the days before them
  -- follow one formula; only the last of them, February, is cut off by the end of the year
  cases h : isLeap year <;> interval_cases k <;>
    simp [daysBeforeYear, daysInYear, daysBeforeMonth, daysInMonth, h]

/-! ## The order of dates -/

section Order
variable {year month day year' month' day' : Nat}

theorem IsDate.lt_nextYear (h : IsDate year month day) :
    daysBeforeYear year + daysBeforeMonth year month + (day - 1) < daysBeforeYear (year + 1) := by
  have hend : daysBeforeMonth year (month + 1) ≤ daysInYear year := by
    rw [← daysBeforeMonth_thirteen]
    apply daysBeforeMonth_mono
    exact Nat.succ_le_succ h.month_le
  rw [daysBeforeMonth_succ year h.month_pos] at hend
  have hpos := h.day_pos
  have hle := h.day_le
  rw [daysBeforeYear]
  omega

theorem IsDate.dayNumber_lt (h : IsDate year month day)
    (hlater : year < year' ∨ year = year' ∧ (month < month' ∨ month = month' ∧ day < day')) :
    dayNumber year month day < dayNumber year' month' day' := by
  have hnext := h.lt_nextYear
  have hpos := h.day_pos
  have hle := h.day_le
  unfold dayNumber
  rcases hlater with hyear | ⟨rfl, hmonth | ⟨rfl, hday⟩⟩
  · have hyears : daysBeforeYear (year + 1) ≤ daysBeforeYear year' := daysBeforeYear_mono hyear
    omega
  · have hmonths : daysBeforeMonth year (month + 1) ≤ daysBeforeMonth year month' :=
      daysBeforeMonth_mono year hmonth
    rw [daysBeforeMonth_succ year h.month_pos] at hmonths
    omega
  · omega

end Order

/-! ## The date of a day -/

/-- A day of an era of 400 years by its centuries, spans of four years, years and days. The leap
day ends the last year of a span, unless the span ends a century other than the last. -/
private structure DayOfEra (n century span year day : Nat) : Prop where
  sum : n = 36524 * century + 1461 * span + 365 * year + day
  century_le : century ≤ 3
  span_le : span ≤ 24
  year_le : year ≤ 3
  day_le : day ≤ 364 ∨ day = 365 ∧ year = 3 ∧ (span < 24 ∨ century = 3)

private theorem exists_dayOfEra {n : Nat} (h : n < 146097) :
    ∃ century span year day, DayOfEra n century span year day := by
  have hcentury : n - 36524 * min 3 (n / 36524) ≤ 36524 := by omega
  have hday : n - 36524 * min 3 (n / 36524) = 36524 → min 3 (n / 36524) = 3 := by omega
  generalize hc : min 3 (n / 36524) = century at hcentury hday
  generalize hr : n - 36524 * century = rest at hcentury hday
  refine ⟨century, rest / 1461, min 3 (rest % 1461 / 365),
    rest % 1461 - 365 * min 3 (rest % 1461 / 365), ?_, ?_, ?_, ?_, ?_⟩ <;> omega

namespace DayOfEra
variable {n century span year day : Nat}

private theorem year_eq (h : DayOfEra n century span year day) :
    (n - n / 1460 + n / 36524 - n / 146096) / 365 = 100 * century + 4 * span + year := by
  -- dividing by the days of a year finds the year of an era, once a day is taken away for each
  -- leap day that lies before
  obtain ⟨hsum, hcentury, hspan, hyear, hday⟩ := h
  have hleap : n / 1460 = 25 * century + span ∧ (year < 3 ∨ day < 365 - (24 * century + span)) ∨
      n / 1460 = 25 * century + span + 1 ∧ year = 3 ∧ 365 - (24 * century + span) ≤ day := by
    omega
  have hfull : n / 36524 = century ∨ n / 36524 = 4 ∧ century = 3 ∧ n = 146096 := by
    omega
  omega

private theorem ofDays_eq (h : DayOfEra n century span year day) (era : Nat) :
    Date.ofDays (146097 * era + n - 719468) =
      let total := 400 * era + 100 * century + 4 * span + year
      let month := (5 * day + 2) / 153
      ⟨(if month < 10 then total else total + 1 : Nat), if month < 10 then month + 3 else month - 9,
        day - (153 * month + 2) / 5 + 1⟩ := by
  have hyears := h.year_eq
  obtain ⟨hsum, hcentury, hspan, hyear, hday⟩ := h
  have hshift : (146097 * era + n - 719468 + 719468 : Int) = 146097 * era + n := by omega
  have hera : (146097 * era + n : Int).fdiv 146097 = era := by
    rw [Int.fdiv_eq_ediv_of_nonneg _ (by decide)]
    omega
  have hn : ((146097 * era + n : Int).fmod 146097).toNat = n := by
    rw [Int.fmod_eq_emod_of_nonneg _ (by decide)]
    omega
  have hrest : n - (365 * (100 * century + 4 * span + year) +
      (100 * century + 4 * span + year) / 4 - (100 * century + 4 * span + year) / 100) = day := by
    omega
  simp only [Date.ofDays, hshift, hera, hn, hyears, hrest]
  have hmonth : (5 * day + 2) / 153 < 12 := by omega
  by_cases hlate : (5 * day + 2) / 153 < 10
  · simp [hlate]
    omega
  · have hle : (5 * day + 2) / 153 - 9 ≤ 2 := by omega
    simp [hlate, hle]
    omega

private theorem daysBefore (h : DayOfEra n century span year day) (era : Nat) :
    146097 * era + n + 60 = daysBeforeYear (400 * era + 100 * century + 4 * span + year) +
      (if isLeap (400 * era + 100 * century + 4 * span + year) then 60 else 59) + day := by
  obtain ⟨hsum, hcentury, hspan, hyear, -⟩ := h
  generalize htotal : 400 * era + 100 * century + 4 * span + year = total
  have hfours : total / 4 = 100 * era + 25 * century + span := by omega
  have hhundreds : total / 100 = 4 * era + century := by omega
  have heras : total / 400 = era := by omega
  rw [daysBeforeMarch, leapDays, hfours, hhundreds, heras]
  omega

private theorem day_le_leap (h : DayOfEra n century span year day) (era : Nat) :
    day ≤ if isLeap (400 * era + 100 * century + 4 * span + year + 1) then 365 else 364 := by
  obtain ⟨-, hcentury, hspan, hyear, hday⟩ := h
  rcases isLeap_cases (400 * era + 100 * century + 4 * span + year + 1) with
    ⟨hleap, -⟩ | ⟨hleap, hfour, hhundred⟩
  · rw [hleap, if_pos rfl]
    omega
  · rw [hleap, if_neg (by decide)]
    omega

end DayOfEra

private theorem ofDays_firstMonths : ∀ k : Nat, k < 60 → Date.ofDays (k - 719528) =
    ⟨0, if k < 31 then 1 else 2, if k < 31 then k + 1 else k - 30⟩ := by
  decide

theorem dayNumber_newYear (year : Nat) : dayNumber year 1 1 = daysBeforeYear year - 719528 := by
  rw [dayNumber, daysBeforeYear_epoch]
  rfl

/-- From the beginning of year 0 on, a day gets the date that so many days lie before. -/
theorem ofDays_eq {days : Int} (h : dayNumber 0 1 1 ≤ days) :
    ∃ year month day : Nat, Date.ofDays days = ⟨year, month, day⟩ ∧ IsDate year month day ∧
      dayNumber year month day = days := by
  rw [dayNumber_newYear, daysBeforeYear] at h
  by_cases hearly : days < -719468
  · obtain ⟨k, hk⟩ := Int.eq_ofNat_of_zero_le (a := days + 719528) (by omega)
    obtain rfl : days = k - 719528 := by omega
    have hlength : daysInMonth 0 1 = 31 ∧ daysInMonth 0 2 = 29 := by decide
    have hbefore : daysBeforeMonth 0 1 = 0 ∧ daysBeforeMonth 0 2 = 31 := by decide
    refine ⟨0, _, _, ofDays_firstMonths k (by omega), ⟨?_, ?_, ?_, ?_⟩, ?_⟩
    · split <;> omega
    · split <;> omega
    · split <;> omega
    · split <;> omega
    · rw [dayNumber, daysBeforeYear_epoch, daysBeforeYear]
      split <;> omega
  · obtain ⟨shifted, hshifted⟩ := Int.eq_ofNat_of_zero_le (a := days + 719468) (by omega)
    obtain ⟨era, n, hn, rfl⟩ : ∃ era n, n < 146097 ∧ shifted = 146097 * era + n :=
      ⟨shifted / 146097, shifted % 146097, by omega, by omega⟩
    obtain rfl : days = 146097 * era + n - 719468 := by omega
    obtain ⟨century, span, year, day, hday⟩ := exists_dayOfEra hn
    have hdate := hday.ofDays_eq era
    have hdays := hday.daysBefore era
    have hend := hday.day_le_leap era
    generalize htotal : 400 * era + 100 * century + 4 * span + year = total at hdate hdays hend
    have hmonth : (5 * day + 2) / 153 < 12 := by
      split at hend <;> omega
    obtain ⟨hbefore, hlength⟩ := fromMarch total hmonth
    refine ⟨_, _, _, hdate, ⟨?_, ?_, ?_, ?_⟩, ?_⟩
    · split <;> omega
    · split <;> omega
    · omega
    · rw [hlength]
      split at hend <;> split <;> omega
    · rw [dayNumber, hbefore, daysBeforeYear_epoch]
      omega

end Gregorian
end DomainModel
