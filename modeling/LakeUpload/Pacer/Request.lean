import LakeUpload.Context.CallContext
import LakeUpload.Pacer.Bucket

/-!
# Waiting for tokens

A request waits until its tokens are there or its context is done. It waits in slices, each of at
most 50 ms and never past the deadline; during a slice the rate may be changed, which ends the
slice, and the context may be cancelled, which is noticed at its end. The waiting ends in any case
at the last instant that the clock can show. A bucket is there for as long as somebody waits for it:
that it is taken down meanwhile is not among the events.
-/

namespace LakeUpload

/-- Something whose flags a context watches, and that can be cancelled at an instant. -/
class Cancellable (ω : Type) where
  flags : ω → Flags
  cancel : Int → ω → ω

/-- The caller of a single request, with the source that its context came from. -/
structure Caller where
  source : CancelSource := {}
  flags : Flags := {}
  deriving DecidableEq, Repr

instance : Cancellable Caller where
  flags := Caller.flags
  cancel _ caller := { caller with flags := caller.source.cancel caller.flags }

namespace Pacer

inductive Change where
  | rate (bytesPerSecond : UInt64)
  | cancel
  deriving DecidableEq, Repr

/-- What happens at an instant while a request waits. -/
structure Event where
  time : Int
  change : Change
  deriving DecidableEq, Repr

/-- What a request works on: the bucket, the steady clock, and the owner of the context. -/
structure Desk (α ω : Type) where
  bucket : Bucket α
  now : Int
  owner : ω

/-- A slice in microseconds is at most this long. -/
def maxSlice : Int := 50000

variable {α ω : Type} [Cancellable ω] (ar : Arithmetic α)

/-- Lets the time pass up to an instant, or to a change of the rate; what is left of the events
comes later. -/
def pass (target : Int) : List Event → Desk α ω → Desk α ω × List Event
  | [], desk => ({ desk with now := target }, [])
  | event :: rest, desk =>
      if event.time ≤ target then
        let now := max desk.now event.time
        match event.change with
        | .rate rate =>
            ({ desk with now, bucket := desk.bucket.setRate ar rate now }, rest)
        | .cancel =>
            pass target rest { desk with now, owner := Cancellable.cancel now desk.owner }
      else ({ desk with now := target }, event :: rest)

/-- Either an event was used up, or the time has come. -/
theorem pass_progress (target : Int) (events : List Event) (desk : Desk α ω) :
    (pass ar target events desk).2.length < events.length ∨
      (pass ar target events desk).2.length = events.length ∧
        (pass ar target events desk).1.now = target := by
  induction events generalizing desk with
  | nil =>
      simp [pass]
  | cons event rest ih =>
      unfold pass
      split
      · cases event.change with
        | rate rate =>
            simp
        | cancel =>
            have hrest := ih { desk with
              now := max desk.now event.time
              owner := Cancellable.cancel (max desk.now event.time) desk.owner }
            simp only [List.length_cons]
            omega
      · simp

/-- The number of tokens that lets a request through. -/
def needed (bytes : UInt64) (bucket : Bucket α) : α :=
  ar.least (ar.ofBytes bytes) bucket.capacity

/-- Microseconds of the next slice. -/
def slice (ctx : CallContext) (bytes : UInt64) (bucket : Bucket α) (now : Int) : Int :=
  let wait := min (bucket.microsUntil ar (needed ar bytes bucket)) maxSlice
  match ctx.remaining now with
  | none => wait
  | some left => min wait (left.tdiv 1000)

/-- A slice without length still takes a microsecond. -/
def sliceEnd (now micros : Int) : Int :=
  if micros ≤ 0 then now + 1000 else now + 1000 * micros

theorem lt_sliceEnd (now micros : Int) : now < sliceEnd now micros := by
  unfold sliceEnd
  split <;> omega

/-- What a request finds when it looks at the bucket. -/
inductive Look (α : Type) where
  /-- The tokens were there, and are taken. -/
  | granted (bucket : Bucket α)
  | short (bucket : Bucket α)

def look (bytes : UInt64) (now : Int) (bucket : Bucket α) : Look α :=
  if bucket.rate = 0 then .granted bucket
  else
    let counted := bucket.refill ar now
    if ar.le (needed ar bytes counted) counted.tokens then .granted (counted.take ar bytes)
    else .short counted

/-- One slice of waiting, from when the tokens were found short. -/
def waitSlice (ctx : CallContext) (bytes : UInt64) (events : List Event) (desk : Desk α ω) :
    Desk α ω × List Event :=
  pass ar (sliceEnd desk.now (slice ar ctx bytes desk.bucket desk.now)) events desk

theorem waitSlice_progress (ctx : CallContext) (bytes : UInt64) (events : List Event)
    (desk : Desk α ω) :
    (waitSlice ar ctx bytes events desk).2.length < events.length ∨
      (waitSlice ar ctx bytes events desk).2.length = events.length ∧
        desk.now < (waitSlice ar ctx bytes events desk).1.now := by
  rcases pass_progress ar (sliceEnd desk.now (slice ar ctx bytes desk.bucket desk.now)) events desk
    with hevents | ⟨hevents, hnow⟩
  · exact Or.inl hevents
  · refine Or.inr ⟨hevents, ?_⟩
    unfold waitSlice
    rw [hnow]
    exact lt_sliceEnd _ _

/-- A request as it went. -/
structure Course (α ω : Type) where
  /-- The desk as each wait begins and as it ends, in the order of time. -/
  moments : List (Desk α ω)
  /-- There is none if the clock comes to its end. -/
  answer : Option (Except Fault Unit)
  final : Desk α ω

/-- The course of a request that does not wait. -/
def Course.atOnce (answer : Except Fault Unit) (final : Desk α ω) : Course α ω :=
  { moments := [], answer := some answer, final }

/-- Slices until the tokens are there. -/
def awaitCourse (ctx : CallContext) (bytes : UInt64) (events : List Event) (desk : Desk α ω) :
    Course α ω :=
  match look ar bytes desk.now desk.bucket with
  | .granted bucket => .atOnce (.ok ()) { desk with bucket }
  | .short bucket =>
      if Clock.last ≤ desk.now then
        { moments := [{ desk with bucket }], answer := none, final := { desk with bucket } }
      else
        let after := waitSlice ar ctx bytes events { desk with bucket }
        match ctx.check (Cancellable.flags after.1.owner) after.1.now with
        | .error fault =>
            { moments := [{ desk with bucket }, after.1]
              answer := some (.error fault)
              final := after.1 }
        | .ok () =>
            let rest := awaitCourse ctx bytes after.2 after.1
            { rest with moments := { desk with bucket } :: after.1 :: rest.moments }
termination_by (events.length, (Clock.last - desk.now).toNat)
decreasing_by
  rcases waitSlice_progress ar ctx bytes events { desk with bucket } with hevents | ⟨hevents, hnow⟩
  · exact Prod.Lex.left _ _ hevents
  · rw [hevents]
    have : desk.now < (waitSlice ar ctx bytes events { desk with bucket }).1.now := hnow
    exact Prod.Lex.right _ (by omega)

/-- Events in the order of their times, those of one instant as they were listed. -/
def inOrder (events : List Event) : List Event := events.mergeSort fun a b => a.time ≤ b.time

def requestCourse (ctx : CallContext) (bytes : UInt64) (events : List Event) (desk : Desk α ω) :
    Course α ω :=
  match ctx.check (Cancellable.flags desk.owner) desk.now with
  | .error fault => .atOnce (.error fault) desk
  | .ok () =>
      if desk.bucket.isFree bytes then .atOnce (.ok ()) desk
      else awaitCourse ar ctx bytes (inOrder events) desk

/-- Asks for the tokens of some bytes, while the events happen in the order of their times. -/
def request (ctx : CallContext) (bytes : UInt64) (events : List Event) (desk : Desk α ω) :
    Option (Except Fault Unit) × Desk α ω :=
  let course := requestCourse ar ctx bytes events desk
  (course.answer, course.final)

end Pacer

end LakeUpload
