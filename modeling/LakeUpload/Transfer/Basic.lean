import LakeUpload.Context.CallContext
import LakeUpload.Log.Logger
import LakeUpload.Transfer.Info

/-!
# The owner of an upload

An upload reports to the transfer that it belongs to, and runs under that transfer's context.
`Transfer` lists what an upload needs of its owner.
-/

namespace LakeUpload

/-- What can be reported to a transfer. -/
inductive Verdict where
  | failed (stage : Bytes) (fault : Fault)
  | cancelled
  | succeeded
  deriving DecidableEq, Repr

/-- Something that a transfer has to say: through the logger, or past it to the listener. -/
inductive Notice where
  | log (message : Log.Message)
  | remark (record : Log.Record)
  deriving DecidableEq, Repr

/-- What becomes of a report. -/
structure Reply (τ : Type) where
  transfer : τ
  notices : List Notice := []
  /-- Whether the report ended the transfer, if the transfer tells. -/
  accepted : Option Bool := none

class Transfer (τ : Type) where
  info : τ → Info
  /-- The flags that the transfer's contexts watch. -/
  flags : τ → Flags
  context : τ → CallContext
  status : τ → Status
  isDead : τ → Bool
  report : τ → Verdict → Reply τ
  /-- Notices for a message of the upload. -/
  say : τ → Log.Level → Bytes → List Notice

end LakeUpload
