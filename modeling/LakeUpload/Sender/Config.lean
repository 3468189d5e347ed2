import LakeUpload.Fault
import LakeUpload.Time.Clock

/-!
# The policy of a sender
-/

namespace LakeUpload

open Bytes (ascii)

structure Config where
  /-- Chunks between two flushes. -/
  flushMultiplier : UInt32 := 7500
  /-- Milliseconds that the delete of a dead upload may take. -/
  cleanupTimeout : Int := 120000
  deriving DecidableEq, Repr

namespace Config

def multiplierZero : Fault :=
  ⟨.invalidConfiguration, ascii "flush_threshold_multiplier must be greater than zero"⟩

def timeoutNotPositive : Fault :=
  ⟨.invalidConfiguration, ascii "cleanup_timeout must be positive"⟩

def validate (config : Config) : Except Fault Unit :=
  if config.flushMultiplier = 0 then .error multiplierZero
  else if config.cleanupTimeout ≤ 0 then .error timeoutNotPositive
  else .ok ()

theorem validate_eq_ok_iff {config : Config} :
    config.validate = .ok () ↔ config.flushMultiplier ≠ 0 ∧ 0 < config.cleanupTimeout := by
  unfold validate
  by_cases hmultiplier : config.flushMultiplier = 0
  · simp [hmultiplier]
  · by_cases htimeout : config.cleanupTimeout ≤ 0
    · simp [hmultiplier, htimeout]
    · simp [hmultiplier, htimeout, Int.not_le.1 htimeout]

/-- The timeout in nanoseconds, which wraps around at 64 bits. -/
def cleanupNanos (config : Config) : Int := wrap64 (config.cleanupTimeout * 1000000)

end Config

end LakeUpload
