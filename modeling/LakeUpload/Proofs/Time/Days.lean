import LakeUpload.Time.Calendar
import Mathlib.Order.Monotone.Basic
import Mathlib.Tactic.SplitIfs

/-!
# The calendar day by day

The calendar is given by its rule: months have their lengths, February a day more in a leap year,
and each day is followed by the next one. Dates that are computed from a count of days go along this
rule (`ofDays_add_one`), so the date of a day is what counting on from the first of January 1970
comes to. For the order of dates months are counted through from year to year: their first days only
grow.
-/

namespace LakeUpload

namespace Date

/-! ## The rule -/

/-- Every fourth year, of the centuries every fourth. -/
def Leap (year : Int) : Prop := year % 4 = 0 ∧ (year % 100 ≠ 0 ∨ year % 400 = 0)

instance (year : Int) : Decidable (Leap year) := inferInstanceAs (Decidable (_ ∧ _))

def monthLength (year month : Int) : Int :=
  if month = 2 then if Leap year then 29 else 28
  else if month = 4 ∨ month = 6 ∨ month = 9 ∨ month = 11 then 30
  else 31

/-- The date is in the calendar. -/
structure Valid (date : Date) : Prop where
  month : 1 ≤ date.month ∧ date.month ≤ 12
  day : 1 ≤ date.day ∧ date.day ≤ monthLength date.year date.month

def next (date : Date) : Date :=
  if date.day < monthLength date.year date.month then { date with day := date.day + 1 }
  else if date.month < 12 then ⟨date.year, date.month + 1, 1⟩
  else ⟨date.year + 1, 1, 1⟩

/-- The first of January 1970. -/
def epoch : Date := ⟨1970, 1, 1⟩

/-- By year, then by month, then by day. -/
def Before (date other : Date) : Prop :=
  date.year < other.year ∨ date.year = other.year ∧
    (date.month < other.month ∨ date.month = other.month ∧ date.day < other.day)

/-! ## Months -/

/-- Months from the March of the year 0 on. -/
def months (date : Date) : Int := 12 * date.year + date.month - 3

/-- The day that a month starts with. -/
def firstDay (count : Int) : Int :=
  365 * (count / 12) + count / 12 / 4 - count / 12 / 100 + count / 12 / 400 +
    daysBeforeMonth (count % 12) - epochShift

theorem toDays_eq {date : Date} (h : 1 ≤ date.month ∧ date.month ≤ 12) :
    date.toDays = firstDay date.months + date.day - 1 := by
  unfold toDays firstDay months daysBeforeYear eraDays
  by_cases hearly : date.month ≤ 2
  · have hyear : (12 * date.year + date.month - 3) / 12 = date.year - 1 := by omega
    have hmarch : (12 * date.year + date.month - 3) % 12 = date.month + 9 := by omega
    simp only [hearly, if_true, hyear, hmarch]
    omega
  · have hyear : (12 * date.year + date.month - 3) / 12 = date.year := by omega
    have hmarch : (12 * date.year + date.month - 3) % 12 = date.month - 3 := by omega
    simp only [hearly, if_false, hyear, hmarch]
    omega

/-- Counted from March, a month starts where the one before it ends. -/
theorem daysBeforeMonth_add_one {month : Int} (h : 1 ≤ month ∧ month ≤ 12) (hfebruary : month ≠ 2)
    (year : Int) :
    daysBeforeMonth ((month + 9) % 12 + 1) =
      daysBeforeMonth ((month + 9) % 12) + monthLength year month := by
  have hmonth : month = 1 ∨ month = 3 ∨ month = 4 ∨ month = 5 ∨ month = 6 ∨ month = 7 ∨ month = 8 ∨
      month = 9 ∨ month = 10 ∨ month = 11 ∨ month = 12 := by
    omega
  rcases hmonth with rfl | rfl | rfl | rfl | rfl | rfl | rfl | rfl | rfl | rfl | rfl <;> rfl

theorem firstDay_months_add_one {date : Date} (h : 1 ≤ date.month ∧ date.month ≤ 12) :
    firstDay (date.months + 1) = firstDay date.months + monthLength date.year date.month := by
  unfold firstDay
  by_cases hfebruary : date.month = 2
  · have hmonths : date.months = 12 * date.year - 1 := by
      unfold months
      omega
    have hafter : (12 * date.year - 1 + 1) / 12 = date.year ∧
        (12 * date.year - 1 + 1) % 12 = 0 := by
      omega
    have hhere : (12 * date.year - 1) / 12 = date.year - 1 ∧ (12 * date.year - 1) % 12 = 11 := by
      omega
    rw [hmonths, hafter.1, hafter.2, hhere.1, hhere.2, monthLength, if_pos hfebruary]
    unfold daysBeforeMonth Leap
    split_ifs <;> omega
  · have hsame : (date.months + 1) / 12 = date.months / 12 := by
      unfold months
      omega
    have hmarch : date.months % 12 = (date.month + 9) % 12 := by
      unfold months
      omega
    have hnext : (date.months + 1) % 12 = (date.month + 9) % 12 + 1 := by
      unfold months
      omega
    rw [hsame, hmarch, hnext, daysBeforeMonth_add_one h hfebruary date.year]
    omega

theorem monthLength_pos (year month : Int) : 0 < monthLength year month := by
  unfold monthLength
  split_ifs <;> decide

theorem monthLength_le (year month : Int) : monthLength year month ≤ 31 := by
  unfold monthLength
  split_ifs <;> decide

/-! ## Order -/

/-- Each count of months is that of a date, and no month is empty. -/
theorem firstDay_lt_add_one (count : Int) : firstDay count < firstDay (count + 1) := by
  have hmonths : months ⟨(count + 2) / 12, (count + 2) % 12 + 1, 1⟩ = count := by
    unfold months
    dsimp only
    omega
  have hstep := @firstDay_months_add_one ⟨(count + 2) / 12, (count + 2) % 12 + 1, 1⟩ (by
    dsimp only
    omega)
  have hpos := monthLength_pos ((count + 2) / 12) ((count + 2) % 12 + 1)
  rw [hmonths] at hstep
  dsimp only at hstep
  omega

theorem firstDay_le {count other : Int} (h : count ≤ other) : firstDay count ≤ firstDay other :=
  (strictMono_int_of_lt_succ firstDay_lt_add_one).monotone h

theorem toDays_lt_of_before {date other : Date} (hdate : date.Valid) (hother : other.Valid)
    (h : date.Before other) : date.toDays < other.toDays := by
  rw [toDays_eq hdate.month, toDays_eq hother.month]
  have hlength := firstDay_months_add_one hdate.month
  have hday := hdate.day
  have hotherDay := hother.day
  by_cases hmonths : date.months < other.months
  · have hle : firstDay (date.months + 1) ≤ firstDay other.months :=
      firstDay_le hmonths
    omega
  · have hdateMonth := hdate.month
    have hotherMonth := hother.month
    unfold Before at h
    unfold months at hmonths
    have hsame : date.year = other.year ∧ date.month = other.month ∧ date.day < other.day := by
      omega
    have heq : date.months = other.months := by
      rw [months, months, hsame.1, hsame.2.1]
    rw [heq]
    omega

/-- Two dates are the same, or one comes before the other. -/
theorem before_or_eq_or_before (date other : Date) :
    date.Before other ∨ date = other ∨ other.Before date := by
  obtain ⟨year, month, day⟩ := date
  obtain ⟨year', month', day'⟩ := other
  simp only [Before, mk.injEq]
  omega

theorem toDays_lt_iff {date other : Date} (hdate : date.Valid) (hother : other.Valid) :
    date.toDays < other.toDays ↔ date.Before other := by
  constructor
  · intro hlt
    rcases before_or_eq_or_before date other with hbefore | rfl | hafter
    · exact hbefore
    · exact absurd hlt (Int.lt_irrefl _)
    · have hgt := toDays_lt_of_before hother hdate hafter
      omega
  · exact toDays_lt_of_before hdate hother

theorem toDays_injective {date other : Date} (hdate : date.Valid) (hother : other.Valid)
    (h : date.toDays = other.toDays) : date = other := by
  rcases before_or_eq_or_before date other with hbefore | heq | hafter
  · have hlt := toDays_lt_of_before hdate hother hbefore
    omega
  · exact heq
  · have hgt := toDays_lt_of_before hother hdate hafter
    omega

/-! ## One day after the other -/

/-- The next day is in the same month, or it is the first of the month behind it. -/
theorem next_cases {date : Date} (h : date.Valid) :
    (date.day < monthLength date.year date.month ∧
      date.next = { date with day := date.day + 1 }) ∨
    (date.day = monthLength date.year date.month ∧ date.next.day = 1 ∧
      (1 ≤ date.next.month ∧ date.next.month ≤ 12) ∧ date.next.months = date.months + 1) := by
  obtain ⟨year, month, day⟩ := date
  obtain ⟨⟨hlow, hhigh⟩, hfirst, hlast⟩ := h
  dsimp only at hlow hhigh hfirst hlast
  unfold next months
  dsimp only
  by_cases hinside : day < monthLength year month
  · rw [if_pos hinside]
    exact .inl ⟨hinside, rfl⟩
  · have hend : day = monthLength year month := by omega
    rw [if_neg hinside]
    by_cases hdecember : month < 12
    · rw [if_pos hdecember]
      dsimp only
      exact .inr ⟨hend, rfl, by omega, by omega⟩
    · rw [if_neg hdecember]
      dsimp only
      exact .inr ⟨hend, rfl, by omega, by omega⟩

theorem valid_next {date : Date} (h : date.Valid) : date.next.Valid := by
  rcases next_cases h with ⟨hinside, hnext⟩ | ⟨-, hday, hmonth, -⟩
  · have hday := h.day
    rw [hnext]
    refine ⟨h.month, ?_⟩
    dsimp only
    omega
  · have hpos := monthLength_pos date.next.year date.next.month
    refine ⟨hmonth, ?_⟩
    omega

theorem toDays_next {date : Date} (h : date.Valid) : date.next.toDays = date.toDays + 1 := by
  rw [toDays_eq (valid_next h).month, toDays_eq h.month]
  rcases next_cases h with ⟨-, hnext⟩ | ⟨hend, hday, -, hmonths⟩
  · have hmonths : date.next.months = date.months := by rw [hnext, months, months]
    have hday : date.next.day = date.day + 1 := by rw [hnext]
    rw [hmonths, hday]
    omega
  · rw [hmonths, hday, firstDay_months_add_one h.month]
    omega

/-! ## Dates of days -/

/-- A year of an era is over when the next one begins, the last one a day later. -/
theorem lt_daysBeforeYear {day : Int} (hlow : 0 ≤ day) (hhigh : day < eraDays) :
    day < daysBeforeYear (yearOfEra day + 1) ∨ yearOfEra day = 399 := by
  unfold eraDays at hhigh
  simp only [yearOfEra, daysBeforeYear]
  -- Each count is the quotient, but for the last day of the last and longest piece.
  have hcentury : 0 ≤ min (day / 36524) 3 ∧ min (day / 36524) 3 ≤ 3 ∧
      0 ≤ day - 36524 * min (day / 36524) 3 ∧ day - 36524 * min (day / 36524) 3 ≤ 36524 ∧
      (min (day / 36524) 3 < 3 → day - 36524 * min (day / 36524) 3 < 36524) := by
    omega
  generalize min (day / 36524) 3 = century at hcentury ⊢
  obtain ⟨hc0, hc3, hin0, hin1, hshort⟩ := hcentury
  generalize hin : day - 36524 * century = inCentury at *
  have hyear : 0 ≤ min (inCentury % 1461 / 365) 3 ∧ min (inCentury % 1461 / 365) 3 ≤ 3 ∧
      (min (inCentury % 1461 / 365) 3 < 3 →
        inCentury % 1461 < 365 * min (inCentury % 1461 / 365) 3 + 365) ∧
      inCentury % 1461 < 1461 := by
    omega
  have hsplit := Int.mul_ediv_add_emod inCentury 1461
  have hspan : 0 ≤ inCentury / 1461 ∧ inCentury / 1461 ≤ 24 := by omega
  generalize min (inCentury % 1461 / 365) 3 = year at hyear ⊢
  generalize inCentury / 1461 = span at *
  generalize inCentury % 1461 = inSpan at *
  by_cases hinside : year < 3 ∨ span < 24
  · have hhundred : (100 * century + 4 * span + year + 1) / 100 = century := by omega
    rw [hhundred]
    omega
  · have hlast : 100 * century + 4 * span + year + 1 = 100 * (century + 1) := by omega
    have hhundred : 100 * (century + 1) / 100 = century + 1 := by omega
    rw [hlast, hhundred]
    omega

/-- The last day of a year that is counted from March is the leap day of the year behind it. -/
theorem valid_ofMarch {era yoe inYear : Int} (hlow : 0 ≤ inYear)
    (hhigh : inYear < 365 ∨ inYear = 365 ∧ Leap (yoe + 400 * era + 1)) :
    (ofMarch era yoe (monthOfDay inYear) inYear).Valid := by
  have hmarch := @monthOfDay_bounds inYear hlow (by omega)
  have hend : inYear < daysBeforeMonth (monthOfDay inYear + 1) := by
    unfold daysBeforeMonth monthOfDay
    omega
  generalize monthOfDay inYear = march at *
  obtain ⟨hmarch0, hmarch12, hstart, -⟩ := hmarch
  have hmonth : ∃ month, (if march < 10 then march + 3 else march - 9) = month ∧
      (1 ≤ month ∧ month ≤ 12) ∧ (month + 9) % 12 = march := by
    split
    · exact ⟨march + 3, rfl, by omega, by omega⟩
    · exact ⟨march - 9, rfl, by omega, by omega⟩
  obtain ⟨month, hmonth, hrange, rfl⟩ := hmonth
  unfold ofMarch
  dsimp only
  rw [hmonth]
  refine ⟨hrange, ?_, ?_⟩
  · dsimp only
    omega
  · dsimp only
    by_cases hfebruary : month = 2
    · subst hfebruary
      have hmarch : (2 + 9 : Int) % 12 = 11 := by decide
      have hbefore : daysBeforeMonth 11 = 337 := by decide
      have hearly : (2 : Int) ≤ 2 := by decide
      rw [hmarch, hbefore, if_pos hearly, monthLength, if_pos rfl]
      rcases hhigh with hshort | ⟨rfl, hleap⟩
      · split <;> omega
      · rw [if_pos hleap]
        decide
    · have hlength := daysBeforeMonth_add_one hrange hfebruary
        (yoe + 400 * era + if month ≤ 2 then 1 else 0)
      omega

theorem valid_ofDays (days : Int) : (ofDays days).Valid := by
  have hera0 : 0 ≤ (days + epochShift) % eraDays := Int.emod_nonneg _ (by decide)
  have hera : (days + epochShift) % eraDays < eraDays := Int.emod_lt_of_pos _ (by decide)
  obtain ⟨hyear0, hyear, hbefore, hafter⟩ := yearOfEra_bounds hera0 hera
  have hend := lt_daysBeforeYear hera0 hera
  unfold ofDays
  dsimp only
  generalize (days + epochShift) / eraDays = era
  generalize (days + epochShift) % eraDays = inEra at *
  generalize yearOfEra inEra = yoe at *
  apply valid_ofMarch
  · omega
  · unfold Leap
    unfold daysBeforeYear at *
    omega

theorem ofDays_add_one (days : Int) : ofDays (days + 1) = (ofDays days).next := by
  have hvalid := valid_ofDays days
  apply toDays_injective (valid_ofDays (days + 1)) (valid_next hvalid)
  rw [toDays_next hvalid, toDays_ofDays, toDays_ofDays]

theorem ofDays_zero : ofDays 0 = epoch := by decide

/-- The date of a day is what counting on from the first day comes to. -/
theorem ofDays_natCast (days : Nat) : ofDays days = next^[days] epoch := by
  induction days with
  | zero =>
      exact ofDays_zero
  | succ days ih =>
      rw [Function.iterate_succ_apply', ← ih, ← ofDays_add_one]
      rfl

theorem before_ofDays_iff {days others : Int} :
    (ofDays days).Before (ofDays others) ↔ days < others := by
  rw [← toDays_lt_iff (valid_ofDays days) (valid_ofDays others), toDays_ofDays, toDays_ofDays]

end Date

end LakeUpload
