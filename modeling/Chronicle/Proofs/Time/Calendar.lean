import Chronicle.Time.Calendar
import Mathlib.Tactic.IntervalCases

/-!
# Days and dates

Every count of days has a date that the calendar has, and that date gives back the count.

## Implementation notes

A day of an era is taken apart into its century, its cycle of four years, its year and its day of the
year. The last day of a cycle, of a century and of the era are where plain quotients fail; they all are
the day 365 of a year, and only the fourth year of a cycle has one.
-/

namespace Chronicle

namespace Time

/-! ## Days of an era -/

/-- A day of an era, told by its century, cycle of four years, year of the cycle and day of the year, all
counted from zero. -/
structure EraDay (dayOfEra century cycle year day : Int) : Prop where
  eq : dayOfEra = 36524 * century + 1461 * cycle + 365 * year + day
  century_range : 0 ≤ century ∧ century ≤ 3
  cycle_range : 0 ≤ cycle ∧ cycle ≤ 24
  year_range : 0 ≤ year ∧ year ≤ 3
  day_range : 0 ≤ day ∧ day ≤ 365
  leap : day = 365 → year = 3 ∧ (cycle < 24 ∨ century = 3)

theorem exists_eraDay {d : Int} (hmin : 0 ≤ d) (hmax : d < 146097) :
    ∃ century cycle year day, EraDay d century cycle year day := by
  obtain ⟨century, hcentury⟩ : ∃ century, century = min (d / 36524) 3 := ⟨_, rfl⟩
  obtain ⟨rest, hrest⟩ : ∃ rest, rest = d - 36524 * century := ⟨_, rfl⟩
  obtain ⟨year, hyear⟩ : ∃ year, year = min (rest % 1461 / 365) 3 := ⟨_, rfl⟩
  refine ⟨century, rest / 1461, year, rest % 1461 - 365 * year, ?_⟩
  constructor <;> omega

namespace EraDay

variable {d century cycle year day : Int}

/-- The year of the era that the quotients of a day tell. -/
theorem yearOfEra (h : EraDay d century cycle year day) :
    (d - d / 1460 + d / 36524 - d / 146096) / 365 = 100 * century + 4 * cycle + year := by
  obtain ⟨heq, hcentury, hcycle, hyear, hday, hleap⟩ := h
  have hcenturies : d / 36524 - d / 146096 = century := by
    have hrest : 1461 * cycle + 365 * year + day < 36524 ∨
        century = 3 ∧ 1461 * cycle + 365 * year + day = 36524 := by omega
    rcases hrest with hrest | ⟨rfl, hlast⟩
    · have hquotient : d / 36524 = century := by omega
      omega
    · omega
  -- The quotient by 1460 counts the leap days before the day, and one too many late in a cycle.
  obtain ⟨early, hearly⟩ : ∃ early, early = (24 * century + cycle + 365 * year + day) / 1460 :=
    ⟨_, rfl⟩
  have hcycles : d / 1460 = 25 * century + cycle + early := by omega
  have honce : 0 ≤ early ∧ early ≤ 1 ∧ (early = 1 → 1364 ≤ 365 * year + day) ∧
      (day = 365 → early = 1) := by omega
  have hdays : d - d / 1460 + d / 36524 - d / 146096 =
      365 * (100 * century + 4 * cycle + year) + (day - early) := by omega
  rw [hdays]
  omega

theorem dayOfYear (h : EraDay d century cycle year day) :
    d - (365 * (100 * century + 4 * cycle + year) + (100 * century + 4 * cycle + year) / 4 -
      (100 * century + 4 * cycle + year) / 100) = day := by
  obtain ⟨heq, hcentury, hcycle, hyear, hday, hleap⟩ := h
  omega

end EraDay

/-! ## Dates -/

namespace Date

/-- The date that lies a number of days after the first of March of a year. -/
def fromMarch (year day : Int) : Date :=
  let monthFromMarch := (5 * day + 2) / 153
  let month := if monthFromMarch < 10 then monthFromMarch + 3 else monthFromMarch - 9
  ⟨if month ≤ 2 then year + 1 else year, month.toNat,
    (day - (153 * monthFromMarch + 2) / 5 + 1).toNat⟩

theorem ofDays_eq {days era d century cycle year day : Int} (hdays : days + 719468 = 146097 * era + d)
    (h : EraDay d century cycle year day) :
    ofDays days = fromMarch (100 * century + 4 * cycle + year + era * 400) day := by
  have hd : 0 ≤ d ∧ d < 146097 := by
    obtain ⟨heq, hcentury, hcycle, hyear, hday, hleap⟩ := h
    omega
  have hera : (146097 * era + d) / 146097 = era := by omega
  have hdayOfEra : (146097 * era + d) % 146097 = d := by omega
  simp only [ofDays, hdays, hera, hdayOfEra, h.yearOfEra, h.dayOfYear]
  rfl

theorem isValid_fromMarch {year day : Int} (hmin : 0 ≤ day) (hmax : day ≤ 365)
    (hleap : day = 365 → isLeapYear (year + 1) = true) : (fromMarch year day).isValid = true := by
  obtain ⟨month, hmonth⟩ : ∃ month, month = (5 * day + 2) / 153 := ⟨_, rfl⟩
  have hlow : 0 ≤ month := by omega
  have hhigh : month < 12 := by omega
  simp only [fromMarch, isValid, ← hmonth]
  -- February is the last month of a year that begins in March, and the only one of two lengths.
  by_cases h : month = 11
  · subst h
    have hdays : day - 336 ≤ daysInMonth (year + 1) 2 := by
      rw [daysInMonth, if_pos rfl]
      split
      · omega
      · have hcommon : day ≠ 365 := fun hlast => ‹¬_› (hleap hlast)
        omega
    simp
    omega
  · interval_cases month
    all_goals
      simp [daysInMonth]
      omega

theorem toDays_fromMarch {year day : Int} (hmin : 0 ≤ day) (hmax : day ≤ 365) :
    (fromMarch year day).toDays = year / 400 * 146097 +
      (year % 400 * 365 + year % 400 / 4 - year % 400 / 100 + day) - 719468 := by
  obtain ⟨month, hmonth⟩ : ∃ month, month = (5 * day + 2) / 153 := ⟨_, rfl⟩
  have hrange : 0 ≤ month ∧ month < 12 := by omega
  simp only [fromMarch, toDays, ← hmonth]
  by_cases h : month < 10
  · have hshift : (((month + 3).toNat + 9) % 12 : Nat) = month := by omega
    rw [if_pos h, if_neg (by omega), if_neg (by omega), hshift]
    omega
  · have hshift : (((month - 9).toNat + 9) % 12 : Nat) = month := by omega
    rw [if_neg h, if_pos (by omega), if_pos (by omega), hshift, Int.add_sub_cancel]
    omega

/-- A count of days is given back by its date. -/
theorem toDays_ofDays (days : Int) : (ofDays days).toDays = days := by
  have hdays := (Int.mul_ediv_add_emod (days + 719468) 146097).symm
  obtain ⟨century, cycle, year, day, h⟩ :=
    exists_eraDay (Int.emod_nonneg (days + 719468) (by decide)) (Int.emod_lt_of_pos _ (by decide))
  rw [ofDays_eq hdays h, toDays_fromMarch h.day_range.1 h.day_range.2]
  obtain ⟨heq, hcentury, hcycle, hyear, hday, hleap⟩ := h
  obtain ⟨yearOfEra, hyearOfEra⟩ : ∃ yearOfEra, yearOfEra = 100 * century + 4 * cycle + year :=
    ⟨_, rfl⟩
  have hrange : 0 ≤ yearOfEra ∧ yearOfEra < 400 := by omega
  have hfour : yearOfEra / 4 = 25 * century + cycle := by omega
  have hhundred : yearOfEra / 100 = century := by omega
  rw [← hyearOfEra, Int.add_mul_ediv_right _ _ (by decide), Int.add_mul_emod_self_right,
    Int.ediv_eq_zero_of_lt hrange.1 hrange.2, Int.emod_eq_of_lt hrange.1 hrange.2, hfour, hhundred]
  omega

/-- The date of a count of days is in the calendar. -/
theorem isValid_ofDays (days : Int) : (ofDays days).isValid = true := by
  obtain ⟨century, cycle, year, day, h⟩ :=
    exists_eraDay (Int.emod_nonneg (days + 719468) (by decide)) (Int.emod_lt_of_pos _ (by decide))
  rw [ofDays_eq (Int.mul_ediv_add_emod (days + 719468) 146097).symm h]
  refine isValid_fromMarch h.day_range.1 h.day_range.2 fun hlast => ?_
  obtain ⟨-, hcentury, hcycle, -, -, hleap⟩ := h
  obtain ⟨rfl, hcycle'⟩ := hleap hlast
  simp only [isLeapYear, Bool.and_eq_true, Bool.or_eq_true, decide_eq_true_eq]
  omega

/-- The month and the day of a date in the calendar have at most two digits. -/
theorem lt_of_isValid {date : Date} (h : date.isValid = true) : date.month < 100 ∧ date.day < 100 := by
  have hlength : daysInMonth date.year date.month ≤ 31 := by
    unfold daysInMonth
    split_ifs <;> decide
  simp only [isValid, Bool.and_eq_true, decide_eq_true_eq] at h
  omega

end Date

end Time

end Chronicle
