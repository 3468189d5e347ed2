import LakeUpload.Transfer.Basic

/-!
# Transfers led by hand

A transfer that follows no rules: the last report always counts, and status, liveness and deadline
can be set from outside.
-/

namespace LakeUpload

open Bytes (ascii)

structure Manual where
  info : Info := {}
  status : Status := .started
  /-- Overrides what the status says about being dead. -/
  dead : Option Bool := none
  deadline : Option Int := none
  /-- The stage and the fault of the last failure. -/
  failure : Option (Bytes × Fault) := none
  source : CancelSource := ⟨some ⟨0⟩⟩
  flags : Flags := ⟨[false]⟩
  deriving DecidableEq, Repr

namespace Manual

def context (manual : Manual) : CallContext :=
  match manual.deadline with
  | none => manual.source.context
  | some deadline => manual.source.context.withDeadline deadline

def cancelled (manual : Manual) : Flags := manual.source.cancel manual.flags

def report (manual : Manual) : Verdict → Reply Manual
  | .failed stage fault =>
      { transfer :=
          { manual with
            status := .failed
            failure := some (stage, fault)
            flags := manual.cancelled } }
  | .cancelled => { transfer := { manual with status := .cancelled, flags := manual.cancelled } }
  | .succeeded => { transfer := { manual with status := .succeeded } }

/-- Messages go past every level to the listener. -/
def say (_ : Manual) (level : Log.Level) (message : Bytes) : List Notice :=
  [.remark { level, category := ascii "(transfer)", message }]

instance : Transfer Manual where
  info := Manual.info
  flags := Manual.flags
  context := Manual.context
  status := Manual.status
  isDead manual := manual.dead.getD manual.status.isDead
  report := Manual.report
  say := Manual.say

end Manual

end LakeUpload
