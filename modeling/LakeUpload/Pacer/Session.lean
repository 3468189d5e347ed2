import LakeUpload.Pacer.Request

/-!
# Sessions of a pacer

A session is a bucket in the course of time. Requests may wait and so move the clock; all other
uses of the bucket take no time.
-/

namespace LakeUpload

namespace Pacer

structure Session (α : Type) where
  bucket : Bucket α
  now : Int := 0

namespace Session

inductive Step where
  /-- Waits for tokens, under a context of the caller. -/
  | request (ctx : CallContext) (caller : Caller) (bytes : UInt64) (events : List Event)
  | tryTake (bytes : UInt64)
  | setRate (rate : UInt64)
  | available
  | advance (nanos : Int)
  deriving DecidableEq, Repr

/-- What a step answers. -/
inductive Answer where
  | waited (answer : Option (Except Fault Unit))
  | taken (answer : Bool)
  | tokens (count : UInt64)
  | none

variable {α : Type} (ar : Arithmetic α)

/-- A session with a full bucket. -/
def start (rate : UInt64) (now : Int) : Session α := { bucket := Bucket.full ar rate now, now }

def step (session : Session α) : Step → Answer × Session α
  | .request ctx caller bytes events =>
      let done := request ar ctx bytes events
        { bucket := session.bucket, now := session.now, owner := caller }
      (.waited done.1, { bucket := done.2.bucket, now := done.2.now })
  | .tryTake bytes =>
      let done := session.bucket.tryTake ar bytes session.now
      (.taken done.1, { session with bucket := done.2 })
  | .setRate rate => (.none, { session with bucket := session.bucket.setRate ar rate session.now })
  | .available =>
      let done := session.bucket.available ar session.now
      (.tokens done.1, { session with bucket := done.2 })
  | .advance nanos => (.none, { session with now := wrap64 (session.now + nanos) })

def run (session : Session α) (steps : List Step) : Session α :=
  steps.foldl (fun session step => (session.step ar step).2) session

theorem run_append (session : Session α) (first second : List Step) :
    session.run ar (first ++ second) = (session.run ar first).run ar second := by
  simp [run]

end Session

end Pacer

end LakeUpload
