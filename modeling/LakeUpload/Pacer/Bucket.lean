import LakeUpload.Pacer.Arithmetic

/-!
# Token buckets

A bucket holds at most one second's worth of tokens and fills up at its rate. A rate of zero means
no limit at all. A request above the capacity goes through once the bucket is full and leaves it in
debt.
-/

namespace LakeUpload

structure Bucket (α : Type) where
  /-- Bytes per second. -/
  rate : UInt64
  tokens : α
  capacity : α
  /-- The instant up to which the tokens are counted. -/
  filled : Int

namespace Bucket

variable {α : Type} (ar : Arithmetic α)

def full (rate : UInt64) (now : Int) : Bucket α :=
  { rate, tokens := ar.ofBytes rate, capacity := ar.ofBytes rate, filled := now }

/-- Counts the tokens up to now. -/
def refill (now : Int) (bucket : Bucket α) : Bucket α :=
  let elapsed := ar.seconds (now - bucket.filled)
  if ar.lt ar.zero elapsed then
    { bucket with
      tokens := ar.least (ar.add bucket.tokens (ar.mul elapsed (ar.ofBytes bucket.rate)))
        bucket.capacity
      filled := now }
  else bucket

def take (bytes : UInt64) (bucket : Bucket α) : Bucket α :=
  { bucket with tokens := ar.sub bucket.tokens (ar.ofBytes bytes) }

/-- Whether a request needs no tokens at all. -/
def isFree (bytes : UInt64) (bucket : Bucket α) : Bool := bytes == 0 || bucket.rate == 0

/-- Takes the tokens if they are there now. -/
def tryTake (bytes : UInt64) (now : Int) (bucket : Bucket α) : Bool × Bucket α :=
  if bucket.isFree bytes then (true, bucket)
  else
    let counted := bucket.refill ar now
    if ar.le (ar.ofBytes bytes) counted.tokens then (true, counted.take ar bytes)
    else (false, counted)

/-- A new rate scales the tokens with the capacity; a bucket that had no limit starts full. -/
def setRate (rate : UInt64) (now : Int) (bucket : Bucket α) : Bucket α :=
  let capacity := ar.ofBytes rate
  { rate
    tokens :=
      if bucket.rate != 0 && ar.lt ar.zero bucket.capacity then
        ar.least (ar.mul bucket.tokens (ar.div capacity bucket.capacity)) capacity
      else capacity
    capacity
    filled := now }

/-- Whole bytes that may be sent now. -/
def available (now : Int) (bucket : Bucket α) : UInt64 × Bucket α :=
  let counted := bucket.refill ar now
  (ar.toBytes (ar.greatest ar.zero counted.tokens), counted)

/-- Microseconds until the tokens are there at the current rate. -/
def microsUntil (needed : α) (bucket : Bucket α) : Int :=
  let missing := ar.sub (ar.ofBytes (ar.toBytes needed)) bucket.tokens
  if ar.le missing ar.zero then 0
  else if ar.le (ar.ofBytes bucket.rate) ar.zero then 0
  else ar.micros (ar.div missing (ar.ofBytes bucket.rate))

end Bucket

end LakeUpload
