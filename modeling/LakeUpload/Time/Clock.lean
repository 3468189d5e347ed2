/-!
# Clocks

Instants and durations are counted in nanoseconds. A clock keeps them in 64 bits: sums that leave
the range wrap around. `Clock.first` and `Clock.last` are the ends of the range.
-/

namespace LakeUpload

/-- A steady clock that starts at zero, and the instant of the calendar at which it started. -/
structure Clock where
  epoch : Int := 0
  steady : Int := 0
  deriving DecidableEq, Repr

/-! ## Wrapping around -/

def Clock.first : Int := -0x8000000000000000

def Clock.last : Int := 0x7fffffffffffffff

/-- The number with the same low 64 bits that lies in the signed 64-bit range. -/
def wrap64 (n : Int) : Int := n.bmod 0x10000000000000000

theorem wrap64_eq_self {n : Int} (hlow : Clock.first ≤ n) (hhigh : n ≤ Clock.last) :
    wrap64 n = n := by
  unfold Clock.first at hlow
  unfold Clock.last at hhigh
  unfold wrap64
  rw [Int.bmod_eq_of_le] <;> omega

/-- What lies above the range comes out one turn lower. -/
theorem wrap64_of_last_lt {n : Int} (hlow : Clock.last < n)
    (hhigh : n - 0x10000000000000000 ≤ Clock.last) : wrap64 n = n - 0x10000000000000000 := by
  have hturn : wrap64 (n - 0x10000000000000000) = wrap64 n :=
    Int.sub_bmod_right n 0x10000000000000000
  have hfirst : Clock.first ≤ n - 0x10000000000000000 := by
    unfold Clock.last at hlow
    unfold Clock.first
    omega
  rw [← hturn, wrap64_eq_self hfirst hhigh]

/-- What lies below the range comes out one turn higher. -/
theorem wrap64_of_lt_first {n : Int} (hlow : Clock.first ≤ n + 0x10000000000000000)
    (hhigh : n < Clock.first) : wrap64 n = n + 0x10000000000000000 := by
  have hturn : wrap64 (n + 0x10000000000000000) = wrap64 n :=
    Int.add_bmod_right n 0x10000000000000000
  have hlast : n + 0x10000000000000000 ≤ Clock.last := by
    unfold Clock.first at hhigh
    unfold Clock.last
    omega
  rw [← hturn, wrap64_eq_self hlow hlast]

theorem wrap64_range (n : Int) : Clock.first ≤ wrap64 n ∧ wrap64 n ≤ Clock.last := by
  have hlow := @Int.le_bmod n 0x10000000000000000 (by decide)
  have hhigh := @Int.bmod_lt n 0x10000000000000000 (by decide)
  unfold wrap64 Clock.first Clock.last
  omega

theorem wrap64_add_wrap64 (m n : Int) : wrap64 (m + wrap64 n) = wrap64 (m + n) :=
  Int.add_bmod_bmod

namespace Clock

/-- The calendar's instant, counted from the start of 1970. -/
def calendar (clock : Clock) : Int := wrap64 (clock.epoch + clock.steady)

def advance (clock : Clock) (nanos : Int) : Clock :=
  { clock with steady := wrap64 (clock.steady + nanos) }

end Clock

end LakeUpload
