import LakeUpload.Text.Bytes

/-!
# Transfers

What a transfer is to move, and how far it has come. Kinds and states that a caller numbers
outside the known range are kept under their number.
-/

namespace LakeUpload

open Bytes (ascii)

/-- The kind of thing that a transfer moves. -/
inductive Entity where
  | file
  | folder
  | other (number : Int)
  deriving DecidableEq, Repr

namespace Entity

def ofInt (number : Int) : Entity :=
  if number = 0 then file else if number = 1 then folder else other number

def name : Entity → Bytes
  | file => ascii "file"
  | folder => ascii "folder"
  | other _ => ascii "unknown"

end Entity

inductive Status where
  /-- Scheduled or under way. -/
  | started
  | succeeded
  | failed
  | cancelled
  | other (number : Int)
  deriving DecidableEq, Repr

namespace Status

def ofInt (number : Int) : Status :=
  if number = 0 then started
  else if number = 1 then succeeded
  else if number = 2 then failed
  else if number = 3 then cancelled
  else other number

def name : Status → Bytes
  | started => ascii "started"
  | succeeded => ascii "succeeded"
  | failed => ascii "failed"
  | cancelled => ascii "cancelled"
  | other _ => ascii "unknown"

/-- Whether the transfer came to an end under way. -/
def isDead : Status → Bool
  | failed => true
  | cancelled => true
  | _ => false

theorem isDead_iff {status : Status} :
    status.isDead = true ↔ status = failed ∨ status = cancelled := by
  cases status <;> simp [isDead]

end Status

structure Info where
  transferId : Bytes := []
  /-- A path or a URL. -/
  source : Bytes := []
  destination : Bytes := []
  sourceSize : UInt64 := 0
  blockSize : UInt32 := 0
  entity : Entity := .file
  deriving DecidableEq, Repr

end LakeUpload
