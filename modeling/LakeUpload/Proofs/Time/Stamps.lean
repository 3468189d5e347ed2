import LakeUpload.Proofs.Time.Days
import LakeUpload.Proofs.Time.Layout
import LakeUpload.Time.Clock
import LakeUpload.Time.Stamp

/-!
# What time stamps tell

Read back as a date and a time of day, a stamp tells its instant to the millisecond, and no other
one. The numbers in a stamp go from years down to milliseconds and have fixed widths, so the bytes
of two stamps of one layout compare as their instants do.
-/

namespace LakeUpload

open Bytes (ascii padded)

namespace Stamp

/-- The layout of stamps, with the marks between day and time and those behind it all. -/
def layout (between behind : Bytes) : Layout :=
  [(4, ascii "-"), (2, ascii "-"), (2, between), (2, ascii ":"), (2, ascii ":"), (2, ascii "."),
    (3, behind)]

/-! ## What is told -/

structure Moment where
  date : Date
  hour : Nat
  minute : Nat
  second : Nat
  milli : Nat

/-- Year, month, day, hour, minute, second and millisecond. -/
def momentOf? : List Nat → Option Moment
  | [year, month, day, hour, minute, second, milli] =>
      some ⟨⟨year, month, day⟩, hour, minute, second, milli⟩
  | _ => none

/-- A moment is so many milliseconds behind the start of 1970, all days having 86400 seconds. -/
structure Moment.Denotes (moment : Moment) (millis : Nat) : Prop where
  date : moment.date = Date.next^[millis / 86400000] Date.epoch
  hour : moment.hour < 24
  minute : moment.minute < 60
  second : moment.second < 60
  milli : moment.milli < 1000
  time : ((moment.hour * 60 + moment.minute) * 60 + moment.second) * 1000 + moment.milli =
    millis % 86400000

def Tells (layout : Layout) (text : Bytes) (millis : Nat) : Prop :=
  ∃ moment, (layout.read? text).bind momentOf? = some moment ∧ moment.Denotes millis

/-- A moment is at one instant only. -/
theorem Moment.Denotes.unique {moment : Moment} {millis other : Nat} (h : moment.Denotes millis)
    (hother : moment.Denotes other) : other = millis := by
  have hdate := h.date
  rw [hother.date, ← Date.ofDays_natCast, ← Date.ofDays_natCast] at hdate
  have hdays := congrArg Date.toDays hdate
  rw [Date.toDays_ofDays, Date.toDays_ofDays] at hdays
  have htime := h.time
  have hotherTime := hother.time
  omega

/-! ## Numbers of an instant -/

def dateNumbers (days : Nat) : List Nat :=
  let date := Date.ofDays days
  [date.year.toNat, date.month.toNat, date.day.toNat]

theorem length_dateNumbers (days : Nat) : (dateNumbers days).length = 3 := rfl

def timeNumbers (millis : Nat) : List Nat :=
  [millis / 3600000, millis / 60000 % 60, millis / 1000 % 60, millis % 1000]

def numbers (millis : Nat) : List Nat :=
  dateNumbers (millis / 86400000) ++ timeNumbers (millis % 86400000)

/-- The days before the year 10000. -/
def dayLimit : Nat := 2932897

theorem year_bounds {days : Nat} (h : days < dayLimit) :
    0 ≤ (Date.ofDays days).year ∧ (Date.ofDays days).year < 10000 := by
  have hvalid := Date.valid_ofDays days
  have hmonth := hvalid.month
  have hday := hvalid.day
  have hlast : (Date.ofDays days).Before (Date.ofDays dayLimit) :=
    Date.before_ofDays_iff.2 (Int.ofNat_lt.2 h)
  have hfirst : ¬ (Date.ofDays days).Before (Date.ofDays 0) := by
    rw [Date.before_ofDays_iff]
    omega
  have hlimit : Date.ofDays dayLimit = ⟨10000, 1, 1⟩ := by decide
  rw [hlimit] at hlast
  rw [Date.ofDays_zero] at hfirst
  unfold Date.Before at hlast hfirst
  unfold Date.epoch at hfirst
  dsimp only at hlast hfirst
  omega

/-- Dates before the year 10000 are given by their numbers, which have places wide enough. -/
theorem exists_dateNumbers {days : Nat} (h : days < dayLimit) :
    ∃ year month day : Nat, Date.ofDays days = ⟨year, month, day⟩ ∧
      dateNumbers days = [year, month, day] ∧ year < 10000 ∧ month < 100 ∧ day < 100 := by
  have hyear := year_bounds h
  have hvalid := Date.valid_ofDays days
  have hmonth := hvalid.month
  have hday := hvalid.day
  have hlength := Date.monthLength_le (Date.ofDays days).year (Date.ofDays days).month
  refine ⟨_, _, _, ?_, rfl, by omega, by omega, by omega⟩
  rw [Int.toNat_of_nonneg hyear.1, Int.toNat_of_nonneg (by omega), Int.toNat_of_nonneg (by omega)]

theorem dateNumbers_lt_iff {days others : Nat} (h : days < dayLimit) (hothers : others < dayLimit) :
    dateNumbers days < dateNumbers others ↔ days < others := by
  obtain ⟨year, month, day, hdate, hnumbers, -⟩ := exists_dateNumbers h
  obtain ⟨year', month', day', hdate', hnumbers', -⟩ := exists_dateNumbers hothers
  rw [← Int.ofNat_lt, ← Date.before_ofDays_iff, hdate, hdate', hnumbers, hnumbers']
  unfold Date.Before
  simp only [List.cons_lt_cons_iff, List.lt_irrefl, and_false, or_false]
  omega

theorem dateNumbers_injective {days others : Nat} (h : days < dayLimit)
    (hothers : others < dayLimit) (heq : dateNumbers days = dateNumbers others) :
    days = others := by
  have hlt := dateNumbers_lt_iff h hothers
  have hgt := dateNumbers_lt_iff hothers h
  rw [heq] at hlt hgt
  have hirrefl : ¬ dateNumbers others < dateNumbers others := List.lt_irrefl _
  rw [iff_false_left hirrefl] at hlt hgt
  omega

theorem timeNumbers_lt_iff (millis other : Nat) :
    timeNumbers millis < timeNumbers other ↔ millis < other := by
  unfold timeNumbers
  simp only [List.cons_lt_cons_iff, List.lt_irrefl, and_false, or_false]
  omega

theorem numbers_lt_iff {millis other : Nat} (h : millis / 86400000 < dayLimit)
    (hother : other / 86400000 < dayLimit) : numbers millis < numbers other ↔ millis < other := by
  have hlength := length_dateNumbers (millis / 86400000)
  rw [← length_dateNumbers (other / 86400000)] at hlength
  have hdays : dateNumbers (millis / 86400000) = dateNumbers (other / 86400000) ↔
      millis / 86400000 = other / 86400000 :=
    ⟨dateNumbers_injective h hother, fun heq => by rw [heq]⟩
  unfold numbers
  rw [Lists.append_lt_append_iff hlength, dateNumbers_lt_iff h hother, timeNumbers_lt_iff, hdays]
  omega

theorem fits_numbers {millis : Nat} (h : millis / 86400000 < dayLimit) (between behind : Bytes) :
    (layout between behind).Fits (numbers millis) := by
  obtain ⟨year, month, day, -, hnumbers, hyear, hmonth, hday⟩ := exists_dateNumbers h
  rw [Layout.fits_iff_widths, numbers, timeNumbers, hnumbers]
  simp only [layout, List.map_cons, List.map_nil, List.cons_append, List.nil_append,
    List.forall₂_cons, List.Forall₂.nil, and_true]
  omega

theorem denotes_numbers {millis : Nat} (h : millis / 86400000 < dayLimit) :
    ∃ moment, momentOf? (numbers millis) = some moment ∧ moment.Denotes millis := by
  obtain ⟨year, month, day, hdate, hnumbers, -⟩ := exists_dateNumbers h
  rw [Date.ofDays_natCast] at hdate
  rw [numbers, timeNumbers, hnumbers]
  refine ⟨_, rfl, hdate.symm, ?_, ?_, ?_, ?_, ?_⟩
  all_goals dsimp only
  all_goals omega

/-! ## Stamps -/

theorem seconds_natCast (nanos : Nat) : seconds nanos = ((nanos / 1000000000 : Nat) : Int) := by
  unfold seconds
  rw [Int.tdiv_eq_ediv_of_nonneg (by omega)]
  omega

theorem millis_natCast (nanos : Nat) : millis nanos = ((nanos / 1000000 % 1000 : Nat) : Int) := by
  unfold millis
  rw [Int.tdiv_eq_ediv_of_nonneg (by omega), Int.tmod_eq_emod_of_nonneg (by omega)]
  omega

theorem dateText_seconds {nanos : Nat} (h : nanos / 1000000 / 86400000 < dayLimit) :
    dateText (seconds nanos) = Layout.write [(4, ascii "-"), (2, ascii "-"), (2, [])]
      (dateNumbers (nanos / 1000000 / 86400000)) := by
  have hdays : seconds nanos / 86400 = ((nanos / 1000000 / 86400000 : Nat) : Int) := by
    rw [seconds_natCast]
    omega
  obtain ⟨year, month, day, hdate, hnumbers, -⟩ := exists_dateNumbers h
  unfold dateText
  rw [hdays, hdate, hnumbers]
  simp [Layout.write]

theorem write_numbers {nanos : Nat} (h : nanos / 1000000 / 86400000 < dayLimit)
    (between behind : Bytes) :
    dateText (seconds nanos) ++ between ++ timeText (seconds nanos) ++ ascii "." ++
        padded 3 (millis nanos) ++ behind =
      (layout between behind).write (numbers (nanos / 1000000)) := by
  have hhour : seconds nanos % 86400 / 3600 =
      ((nanos / 1000000 % 86400000 / 3600000 : Nat) : Int) := by
    rw [seconds_natCast]
    omega
  have hminute : seconds nanos % 86400 / 60 % 60 =
      ((nanos / 1000000 % 86400000 / 60000 % 60 : Nat) : Int) := by
    rw [seconds_natCast]
    omega
  have hsecond : seconds nanos % 86400 % 60 =
      ((nanos / 1000000 % 86400000 / 1000 % 60 : Nat) : Int) := by
    rw [seconds_natCast]
    omega
  have hmilli : nanos / 1000000 % 1000 = nanos / 1000000 % 86400000 % 1000 := by omega
  rw [dateText_seconds h, millis_natCast, hmilli]
  unfold timeText
  dsimp only
  rw [hhour, hminute, hsecond]
  unfold layout numbers timeNumbers dateNumbers
  simp [Layout.write]

/-- What stamps in a layout tell, from 1970 on for as long as a clock goes. -/
structure Faithful (layout : Layout) (size : Nat) (stamp : Int → Bytes) : Prop where
  length : ∀ {nanos : Int}, 0 ≤ nanos → nanos ≤ Clock.last → (stamp nanos).length = size
  tells_iff : ∀ {nanos : Int}, 0 ≤ nanos → nanos ≤ Clock.last → ∀ millis : Nat,
    Tells layout (stamp nanos) millis ↔ (millis : Int) = nanos / 1000000
  lt_iff : ∀ {nanos other : Int}, 0 ≤ nanos → nanos ≤ Clock.last → 0 ≤ other →
    other ≤ Clock.last → (stamp nanos < stamp other ↔ nanos / 1000000 < other / 1000000)

theorem faithful_of_write {between behind : Bytes} {stamp : Int → Bytes}
    (h : ∀ nanos : Nat, nanos / 1000000 / 86400000 < dayLimit →
      stamp nanos = (layout between behind).write (numbers (nanos / 1000000))) :
    Faithful (layout between behind) (layout between behind).size stamp := by
  have hdays {nanos : Nat} (hhigh : (nanos : Int) ≤ Clock.last) :
      nanos / 1000000 / 86400000 < dayLimit := by
    unfold Clock.last at hhigh
    unfold dayLimit
    omega
  refine ⟨?_, ?_, ?_⟩
  · intro nanos hlow hhigh
    lift nanos to Nat using hlow
    rw [h nanos (hdays hhigh), Layout.length_write (fits_numbers (hdays hhigh) _ _)]
  · intro nanos hlow hhigh millis
    lift nanos to Nat using hlow
    have hread := Layout.read?_write (fits_numbers (hdays hhigh) between behind)
    obtain ⟨moment, hmoment, hdenotes⟩ := denotes_numbers (hdays hhigh)
    unfold Tells
    rw [h nanos (hdays hhigh), hread, Option.bind_some, hmoment]
    constructor
    · rintro ⟨same, hsame, htold⟩
      cases hsame
      have heq := hdenotes.unique htold
      omega
    · intro hmillis
      have heq : millis = nanos / 1000000 := by omega
      rw [heq]
      exact ⟨moment, rfl, hdenotes⟩
  · intro nanos other hlow hhigh hlow' hhigh'
    lift nanos to Nat using hlow
    lift other to Nat using hlow'
    rw [h nanos (hdays hhigh), h other (hdays hhigh'),
      Layout.write_lt_write_iff (fits_numbers (hdays hhigh) _ _) (fits_numbers (hdays hhigh') _ _),
      numbers_lt_iff (hdays hhigh) (hdays hhigh')]
    omega

/-- Both kinds of stamps tell the instant to the millisecond, and come in its order. -/
theorem stamps_tell_millis :
    Faithful (layout (ascii "T") (ascii "Z")) 24 zulu ∧
      Faithful (layout (ascii " ") []) 23 plain := by
  constructor
  · apply faithful_of_write
    intro nanos hdays
    exact write_numbers hdays (ascii "T") (ascii "Z")
  · apply faithful_of_write
    intro nanos hdays
    have hwrite := write_numbers hdays (ascii " ") []
    rw [List.append_nil] at hwrite
    exact hwrite

/-- The last nanosecond of a leap day and the first of the day behind it. -/
theorem leapDay_tells_millis :
    zulu 1709251199999999999 = ascii "2024-02-29T23:59:59.999Z" ∧
      plain 1709251200000000000 = ascii "2024-03-01 00:00:00.000" ∧
      Tells (layout (ascii "T") (ascii "Z")) (zulu 1709251199999999999) 1709251199999 ∧
      Tells (layout (ascii " ") []) (plain 1709251200000000000) 1709251200000 ∧
      plain 1709251199999999999 < plain 1709251200000000000 := by
  have hlast : 1709251200000000000 ≤ Clock.last := by decide
  have hearlier : 1709251199999999999 ≤ Clock.last := by decide
  obtain ⟨hzulu, hplain⟩ := stamps_tell_millis
  refine ⟨by decide, by decide, ?_, ?_, ?_⟩
  · exact (hzulu.tells_iff (by decide) hearlier 1709251199999).2 (by decide)
  · exact (hplain.tells_iff (by decide) hlast 1709251200000).2 (by decide)
  · exact (hplain.lt_iff (by decide) hearlier (by decide) hlast).2 (by decide)

end Stamp

end LakeUpload
