/-!
# Arithmetic of tokens

Token counts are rounded numbers. A pacer uses them only through the operations listed here, so
what holds of every `Arithmetic` does not hang on how results are rounded; `Arithmetic.double` are
the doubles that pacers run on.
-/

namespace LakeUpload

structure Arithmetic (α : Type) where
  zero : α
  /-- The number nearest to a count of bytes. -/
  ofBytes : UInt64 → α
  /-- A duration in nanoseconds, as seconds. -/
  seconds : Int → α
  add : α → α → α
  sub : α → α → α
  mul : α → α → α
  div : α → α → α
  lt : α → α → Bool
  le : α → α → Bool
  /-- A number of seconds, as whole microseconds. -/
  micros : α → Int
  /-- A number of bytes, cut off to a 64-bit word. -/
  toBytes : α → UInt64

namespace Arithmetic

/-- The smaller of two numbers, the first one where neither is smaller. -/
def least {α : Type} (ar : Arithmetic α) (a b : α) : α := if ar.lt b a then b else a

/-- The larger of two numbers, the first one where neither is larger. -/
def greatest {α : Type} (ar : Arithmetic α) (a b : α) : α := if ar.lt a b then b else a

/-- Cut off toward zero; what does not fit into a signed 64-bit word becomes the least of them. -/
def truncate (x : Float) : Int :=
  if -9223372036854775808.0 ≤ x && x < 9223372036854775808.0 then x.toInt64.toInt else -0x8000000000000000

/-- Cut off toward zero; 2^64 itself, the double nearest to the largest words, wraps to zero. -/
def truncateWord (x : Float) : UInt64 :=
  if x < 18446744073709551616.0 then x.toUInt64 else 0

/-- Arithmetic on doubles, with halves rounded to even. -/
def double : Arithmetic Float where
  zero := 0.0
  ofBytes := UInt64.toFloat
  seconds nanos := (Int64.ofInt nanos).toFloat / 1000000000.0
  add := Float.add
  sub := Float.sub
  mul := Float.mul
  div := Float.div
  lt a b := a < b
  le a b := a ≤ b
  micros secs := truncate (secs * 1000000.0)
  toBytes := truncateWord

end Arithmetic

end LakeUpload
