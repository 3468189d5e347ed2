import LakeUpload.Transfer.Info

/-!
# States of a sender

A sender goes through phases of its own; what it reports as its state also depends on how the
transfer has come along.
-/

namespace LakeUpload

open Bytes (ascii)

inductive Phase where
  | constructed
  | prologued
  | cleanedUp
  deriving DecidableEq, Repr

inductive SenderState where
  | constructed
  | prologued
  | succeeded
  | failed
  | cleanedUp
  deriving DecidableEq, Repr

namespace SenderState

def ofInt? (number : Int) : Option SenderState :=
  if number = 0 then some constructed
  else if number = 1 then some prologued
  else if number = 2 then some succeeded
  else if number = 3 then some failed
  else if number = 4 then some cleanedUp
  else none

def name : SenderState → Bytes
  | constructed => ascii "constructed"
  | prologued => ascii "prologued"
  | succeeded => ascii "succeeded"
  | failed => ascii "failed"
  | cleanedUp => ascii "cleaned_up"

/-- The status of the transfer counts between the prologue and the cleanup. -/
def of : Phase → Status → SenderState
  | .constructed, _ => constructed
  | .cleanedUp, _ => cleanedUp
  | .prologued, .succeeded => succeeded
  | .prologued, status => if status.isDead then failed else prologued

theorem of_eq_cleanedUp_iff {phase : Phase} {status : Status} :
    of phase status = cleanedUp ↔ phase = .cleanedUp := by
  cases phase <;> cases status <;> simp [of, Status.isDead]

theorem of_eq_constructed_iff {phase : Phase} {status : Status} :
    of phase status = constructed ↔ phase = .constructed := by
  cases phase <;> cases status <;> simp [of, Status.isDead]

end SenderState

end LakeUpload
