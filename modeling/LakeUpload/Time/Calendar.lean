/-!
# The Gregorian calendar

Days are counted from the first of January 1970. Years are counted from March while days are
turned into dates, so that a leap day is the last day of its year; `toDays_ofDays` says that
nothing is lost on the way.
-/

namespace LakeUpload

structure Date where
  year : Int
  month : Int
  day : Int
  deriving DecidableEq, Repr

namespace Date

/-- Days from the first of March of the year 0 to the first of January 1970. -/
def epochShift : Int := 719468

/-- Days in four hundred years. -/
def eraDays : Int := 146097

/-- The year of an era that a day of that era falls in: centuries of 36524 days, then spans of four
years of 1461 days, then years of 365 days, the last of each span being longer. -/
def yearOfEra (day : Int) : Int :=
  let century := min (day / 36524) 3
  let inCentury := day - 36524 * century
  let span := inCentury / 1461
  let inSpan := inCentury % 1461
  100 * century + 4 * span + min (inSpan / 365) 3

/-- Days before a year of an era. -/
def daysBeforeYear (year : Int) : Int :=
  365 * year + year / 4 - year / 100

/-- Days before a month, March being month 0. -/
def daysBeforeMonth (month : Int) : Int :=
  (153 * month + 2) / 5

def monthOfDay (day : Int) : Int :=
  (5 * day + 2) / 153

/-- A day of an era lies in the year that `yearOfEra` gives it. -/
theorem yearOfEra_bounds {day : Int} (hlow : 0 ≤ day) (hhigh : day < eraDays) :
    0 ≤ yearOfEra day ∧ yearOfEra day < 400 ∧ daysBeforeYear (yearOfEra day) ≤ day ∧
      day < daysBeforeYear (yearOfEra day) + 366 := by
  unfold eraDays at hhigh
  simp only [yearOfEra, daysBeforeYear]
  have hcentury : 0 ≤ min (day / 36524) 3 ∧ min (day / 36524) 3 ≤ 3 ∧
      36524 * min (day / 36524) 3 ≤ day ∧ day ≤ 36524 * min (day / 36524) 3 + 36524 ∧
      (min (day / 36524) 3 < 3 → day < 36524 * min (day / 36524) 3 + 36524) := by
    omega
  generalize min (day / 36524) 3 = century at hcentury
  obtain ⟨hc0, hc3, hday, hrest, hshort⟩ := hcentury
  generalize hin : day - 36524 * century = inCentury
  have hin0 : 0 ≤ inCentury := by omega
  have hin1 : inCentury ≤ 36524 := by omega
  have hyear : 0 ≤ min (inCentury % 1461 / 365) 3 ∧ min (inCentury % 1461 / 365) 3 ≤ 3 ∧
      365 * min (inCentury % 1461 / 365) 3 ≤ inCentury % 1461 ∧
      inCentury % 1461 < 365 * min (inCentury % 1461 / 365) 3 + 366 := by
    omega
  generalize min (inCentury % 1461 / 365) 3 = year at hyear
  have hsplit := Int.mul_ediv_add_emod inCentury 1461
  have hspan0 : 0 ≤ inCentury / 1461 := by omega
  have hspan1 : inCentury / 1461 ≤ 24 := by omega
  generalize inCentury / 1461 = span at *
  generalize inCentury % 1461 = inSpan at *
  have hquarter : (100 * century + 4 * span + year) / 4 = 25 * century + span := by omega
  have hhundred : (100 * century + 4 * span + year) / 100 = century := by omega
  rw [hquarter, hhundred]
  omega

theorem monthOfDay_bounds {day : Int} (hlow : 0 ≤ day) (hhigh : day < 366) :
    0 ≤ monthOfDay day ∧ monthOfDay day < 12 ∧ daysBeforeMonth (monthOfDay day) ≤ day ∧
      day < daysBeforeMonth (monthOfDay day) + 31 := by
  unfold monthOfDay daysBeforeMonth
  omega

/-- The date of a day within an era, given the March-based year, month and day of the year. -/
def ofMarch (era yoe march inYear : Int) : Date :=
  let month := if march < 10 then march + 3 else march - 9
  { year := yoe + 400 * era + (if month ≤ 2 then 1 else 0)
    month
    day := inYear - daysBeforeMonth march + 1 }

def ofDays (days : Int) : Date :=
  let era := (days + epochShift) / eraDays
  let inEra := (days + epochShift) % eraDays
  let yoe := yearOfEra inEra
  let inYear := inEra - daysBeforeYear yoe
  ofMarch era yoe (monthOfDay inYear) inYear

def toDays (date : Date) : Int :=
  let year := if date.month ≤ 2 then date.year - 1 else date.year
  let era := year / 400
  let march := if date.month ≤ 2 then date.month + 9 else date.month - 3
  era * eraDays + daysBeforeYear (year - 400 * era) + daysBeforeMonth march + date.day - 1 -
    epochShift

theorem toDays_ofMarch {era yoe march inYear : Int} (hyoe0 : 0 ≤ yoe) (hyoe : yoe < 400)
    (hmarch0 : 0 ≤ march) (hmarch : march < 12) :
    (ofMarch era yoe march inYear).toDays =
      era * eraDays + daysBeforeYear yoe + inYear - epochShift := by
  unfold ofMarch toDays
  by_cases hspring : march < 10
  · have hlate : ¬ march + 3 ≤ 2 := by omega
    have hera : (yoe + 400 * era + 0) / 400 = era := by omega
    have hyear : yoe + 400 * era + 0 - 400 * era = yoe := by omega
    have hback : march + 3 - 3 = march := by omega
    simp only [hspring, if_true, hlate, if_false, hera, hyear, hback]
    omega
  · have hearly : march - 9 ≤ 2 := by omega
    have hera : (yoe + 400 * era + 1 - 1) / 400 = era := by omega
    have hyear : yoe + 400 * era + 1 - 1 - 400 * era = yoe := by omega
    have hback : march - 9 + 9 = march := by omega
    simp only [hspring, if_false, hearly, if_true, hera, hyear, hback]
    omega

theorem toDays_ofDays (days : Int) : (ofDays days).toDays = days := by
  have hera0 : 0 ≤ (days + epochShift) % eraDays := Int.emod_nonneg _ (by decide)
  have hera : (days + epochShift) % eraDays < eraDays := Int.emod_lt_of_pos _ (by decide)
  obtain ⟨hyear0, hyear, hbefore, hafter⟩ := yearOfEra_bounds hera0 hera
  have hmonth := @monthOfDay_bounds
    ((days + epochShift) % eraDays -
      daysBeforeYear (yearOfEra ((days + epochShift) % eraDays))) (by omega) (by omega)
  have hsplit := Int.ediv_mul_add_emod (days + epochShift) eraDays
  unfold ofDays
  rw [toDays_ofMarch hyear0 hyear hmonth.1 hmonth.2.1]
  omega

end Date

end LakeUpload
