import LakeUpload.Pacer.Request
import LakeUpload.Sender.Basic

/-!
# Paced chunks

Before a chunk is sent, the upload waits for as many tokens as the chunk has bytes, under the
transfer's context. A cancellation during the wait goes to the transfer, which drops it if it has
come to its end already.
-/

namespace LakeUpload

namespace Setting

variable {τ σ α : Type} [Transfer τ]

/-- The setting with its steady clock at an instant. -/
def atSteady (s : Setting τ σ) (now : Int) : Setting τ σ :=
  { s with clock := { s.clock with steady := now } }

instance : Cancellable (Setting τ σ) where
  flags s := Transfer.flags s.transfer
  cancel now s := (s.atSteady now).report .cancelled

/-- Waits for the tokens of some bytes. -/
def pace (ar : Arithmetic α) (bytes : UInt64) (events : List Pacer.Event) (bucket : Bucket α)
    (s : Setting τ σ) : Option (Except Fault Unit) × Bucket α × Setting τ σ :=
  let done := Pacer.request ar s.context bytes events
    { bucket, now := s.clock.steady, owner := s }
  (done.1, done.2.bucket, done.2.owner.atSteady done.2.now)

end Setting

/-- Where a chunk lies in the source, and what came of the wait if there was one. -/
structure PacedChunk where
  offset : UInt64
  length : Except Fault UInt64
  pace : Option (Option (Except Fault Unit)) := none

namespace Sender

variable {τ σ α : Type} [Transfer τ]

/-- Gets a chunk ready; only a chunk of the plan waits, and only if there is a bucket. -/
def chunk (ar : Arithmetic α) (sender : Sender) (index : UInt64) (events : List Pacer.Event)
    (bucket : Option (Bucket α)) (s : Setting τ σ) :
    PacedChunk × Option (Bucket α) × Setting τ σ :=
  let offset := sender.plan.offset index
  let length := sender.plan.length index (Transfer.info s.transfer).sourceSize
  match length, bucket with
  | .ok bytes, some full =>
      let done := s.pace ar bytes events full
      ({ offset, length, pace := some done.1 }, some done.2.1, done.2.2)
  | _, _ => ({ offset, length }, bucket, s)

end Sender

end LakeUpload
