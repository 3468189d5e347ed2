import LakeUpload.Proofs.Lifecycle.Frame
import LakeUpload.Sender.Pace
import LakeUpload.Transfer.Manual

/-!
# The course of a wait

While a request waits, its tokens are counted time and again, and in between the rate is changed or
the context is cancelled. A deed is one of these. `Waited` says that the deeds since a request came
account for all that has become of the bucket and of the owner, and that no event was left out.
-/

namespace LakeUpload

/-! ## Cancellations that last -/

/-- Owners whose flags stay up when they are cancelled once more. -/
class CancelsForGood (ω : Type) [Cancellable ω] : Prop where
  isRaised_cancel : ∀ (owner : ω) (now : Int) (flag : Flag),
    (Cancellable.flags owner).isRaised flag = true →
      (Cancellable.flags (Cancellable.cancel now owner)).isRaised flag = true

instance : CancelsForGood Caller where
  isRaised_cancel caller _ _ h := CancelSource.isRaised_cancel h caller.source

theorem Setting.flags_cancel {τ σ : Type} [Transfer τ] (s : Setting τ σ) (now : Int) :
    Cancellable.flags (Cancellable.cancel now s) =
      Transfer.flags (Transfer.report s.transfer .cancelled).transfer := by
  show Transfer.flags (Setting.report _ _).transfer = _
  unfold Setting.report
  rw [Setting.quiet_notices]
  rfl

instance {σ : Type} : CancelsForGood (Setting Tracker σ) where
  isRaised_cancel s now flag h := by
    rw [Setting.flags_cancel]
    show (Tracker.report s.transfer .cancelled).transfer.flags.isRaised flag = true
    unfold Tracker.report
    split
    · exact CancelSource.isRaised_cancel h s.transfer.source
    · exact h

instance {σ : Type} : CancelsForGood (Setting Manual σ) where
  isRaised_cancel s now flag h := by
    rw [Setting.flags_cancel]
    exact CancelSource.isRaised_cancel h s.transfer.source

namespace Pacer

/-! ## Deeds -/

/-- Something that is done while a request waits. -/
structure Deed where
  time : Int
  /-- None where the tokens are counted. -/
  change : Option Change
  deriving DecidableEq, Repr

/-- What an event does to a request that came at an instant. -/
def Event.since (start : Int) (event : Event) : Deed :=
  { time := max start event.time, change := some event.change }

namespace Deed

variable {α ω : Type} [Cancellable ω] (ar : Arithmetic α)

def onBucket (bucket : Bucket α) (deed : Deed) : Bucket α :=
  match deed.change with
  | none => bucket.refill ar deed.time
  | some (.rate rate) => bucket.setRate ar rate deed.time
  | some .cancel => bucket

def onOwner (owner : ω) (deed : Deed) : ω :=
  match deed.change with
  | some .cancel => Cancellable.cancel deed.time owner
  | _ => owner

/-- Whether a context is cancelled once some deeds are done. -/
def cancelled (ctx : CallContext) (owner : ω) (deeds : List Deed) : Bool :=
  ctx.isCancelled (Cancellable.flags (deeds.foldl onOwner owner))

theorem isCancelled_onOwner [CancelsForGood ω] {ctx : CallContext} {owner : ω}
    (h : ctx.isCancelled (Cancellable.flags owner) = true) (deed : Deed) :
    ctx.isCancelled (Cancellable.flags (onOwner owner deed)) = true := by
  unfold onOwner
  split
  · exact CallContext.isCancelled_of_imp (CancelsForGood.isRaised_cancel owner _) h
  · exact h

/-- No deed takes a cancellation back. -/
theorem cancelled_append [CancelsForGood ω] {ctx : CallContext} {owner : ω} {deeds : List Deed}
    (h : cancelled ctx owner deeds = true) (more : List Deed) :
    cancelled ctx owner (deeds ++ more) = true := by
  induction more generalizing deeds with
  | nil =>
      rwa [List.append_nil]
  | cons deed rest ih =>
      rw [List.append_cons]
      apply ih
      rw [cancelled, List.foldl_append]
      exact isCancelled_onOwner h deed

end Deed

/-! ## What has become of a request -/

variable {α ω : Type} [Cancellable ω] (ar : Arithmetic α)

/-- A request that came to `start` has waited until `desk`, and some events are yet to come. -/
structure Waited (start : Desk α ω) (events : List Event) (deeds : List Deed) (desk : Desk α ω)
    (pending : List Event) : Prop where
  bucket : desk.bucket = deeds.foldl (Deed.onBucket ar) start.bucket
  owner : desk.owner = deeds.foldl Deed.onOwner start.owner
  later : start.now ≤ desk.now
  ordered : deeds.Pairwise (·.time ≤ ·.time)
  between : ∀ deed ∈ deeds, start.now ≤ deed.time ∧ deed.time ≤ desk.now
  /-- Every event that had its turn was a deed once, in its place. -/
  taken : ∃ used, events = used ++ pending ∧
    deeds.filter (·.change.isSome) = used.map (Event.since start.now)
  due : ∀ event ∈ pending, desk.now ≤ max start.now event.time

section

variable {ar} {start desk after : Desk α ω} {events pending rest : List Event}
variable {deeds more : List Deed}

theorem since_eq {start now : Int} {event : Event} (hlater : start ≤ now)
    (hdue : now ≤ max start event.time) : event.since now = event.since start := by
  have htime : max now event.time = max start event.time := by omega
  rw [Event.since, htime, Event.since]

theorem Waited.trans (hfirst : Waited ar start events deeds desk pending)
    (hsecond : Waited ar desk pending more after rest) :
    Waited ar start events (deeds ++ more) after rest := by
  obtain ⟨used, hevents, hused⟩ := hfirst.taken
  obtain ⟨usedLater, hpending, husedLater⟩ := hsecond.taken
  have hlater := hfirst.later
  have hlater' := hsecond.later
  refine ⟨?_, ?_, Int.le_trans hlater hlater', ?_, ?_, ?_, ?_⟩
  · rw [List.foldl_append, ← hfirst.bucket, hsecond.bucket]
  · rw [List.foldl_append, ← hfirst.owner, hsecond.owner]
  · rw [List.pairwise_append]
    refine ⟨hfirst.ordered, hsecond.ordered, fun deed hdeed next hnext => ?_⟩
    exact Int.le_trans (hfirst.between deed hdeed).2 (hsecond.between next hnext).1
  · intro deed hdeed
    rcases List.mem_append.1 hdeed with hdeed | hdeed
    · have hbetween := hfirst.between deed hdeed
      omega
    · have hbetween := hsecond.between deed hdeed
      omega
  · refine ⟨used ++ usedLater, ?_, ?_⟩
    · rw [hevents, hpending, List.append_assoc]
    · rw [List.filter_append, hused, husedLater, List.map_append]
      congr 1
      refine List.map_congr_left fun event hevent => since_eq hlater (hfirst.due event ?_)
      rw [hpending]
      exact List.mem_append_left _ hevent
  · intro event hevent
    have hdue := hsecond.due event hevent
    have hdue' := hfirst.due event (hpending ▸ List.mem_append_right _ hevent)
    omega

theorem Waited.sorted (h : Waited ar start events deeds desk pending)
    (hsorted : events.Pairwise (·.time ≤ ·.time)) : pending.Pairwise (·.time ≤ ·.time) := by
  obtain ⟨used, hevents, _⟩ := h.taken
  rw [hevents] at hsorted
  exact (List.pairwise_append.1 hsorted).2.1

variable (ar) (start)

theorem waited_refl (events : List Event) :
    Waited ar start events [] start events where
  bucket := rfl
  owner := rfl
  later := Int.le_refl _
  ordered := List.Pairwise.nil
  between := nofun
  taken := ⟨[], rfl, rfl⟩
  due _ _ := Int.le_max_left _ _

theorem waited_refill (events : List Event) :
    Waited ar start events [{ time := start.now, change := none }]
      { start with bucket := start.bucket.refill ar start.now } events where
  bucket := rfl
  owner := rfl
  later := Int.le_refl _
  ordered := List.pairwise_singleton _ _
  between deed hdeed := by
    rw [List.mem_singleton.1 hdeed]
    exact ⟨Int.le_refl _, Int.le_refl _⟩
  taken := ⟨[], rfl, rfl⟩
  due _ _ := Int.le_max_left _ _

/-- Time passes, and no event is due yet. -/
theorem waited_idle {now : Int} (hlater : start.now ≤ now)
    (hdue : ∀ event ∈ events, now ≤ event.time) :
    Waited ar start events [] { start with now } events where
  bucket := rfl
  owner := rfl
  later := hlater
  ordered := List.Pairwise.nil
  between := nofun
  taken := ⟨[], rfl, rfl⟩
  due event hevent := Int.le_trans (hdue event hevent) (Int.le_max_right _ _)

theorem waited_event {event : Event} (hfirst : ∀ next ∈ rest, event.time ≤ next.time) :
    Waited ar start (event :: rest) [event.since start.now]
      { bucket := Deed.onBucket ar start.bucket (event.since start.now)
        now := max start.now event.time
        owner := Deed.onOwner start.owner (event.since start.now) } rest where
  bucket := rfl
  owner := rfl
  later := Int.le_max_left _ _
  ordered := List.pairwise_singleton _ _
  between deed hdeed := by
    rw [List.mem_singleton.1 hdeed]
    exact ⟨Int.le_max_left _ _, Int.le_refl _⟩
  taken := ⟨[event], rfl, rfl⟩
  due next hnext := by
    have htime := hfirst next hnext
    show max start.now event.time ≤ max start.now next.time
    omega

theorem waited_pass {target : Int} (hsorted : events.Pairwise (·.time ≤ ·.time))
    (htarget : start.now ≤ target) :
    ∃ deeds, Waited ar start events deeds (pass ar target events start).1
        (pass ar target events start).2 ∧
      (pass ar target events start).1.now ≤ target := by
  induction events generalizing start with
  | nil =>
      exact ⟨[], waited_idle ar start htarget nofun, Int.le_refl _⟩
  | cons event rest ih =>
      obtain ⟨hfirst, hrest⟩ := List.pairwise_cons.1 hsorted
      unfold pass
      split
      · rename_i hdue
        have hevent := waited_event ar start hfirst
        have hnow : max start.now event.time ≤ target := by omega
        cases hchange : event.change with
        | rate rate =>
            simp only [Event.since, Deed.onBucket, Deed.onOwner, hchange] at hevent
            exact ⟨_, hevent, hnow⟩
        | cancel =>
            simp only [Event.since, Deed.onBucket, Deed.onOwner, hchange] at hevent
            obtain ⟨deeds, hdeeds, hend⟩ := ih ⟨_, _, _⟩ hrest hnow
            exact ⟨_, hevent.trans hdeeds, hend⟩
      · rename_i hdue
        refine ⟨[], waited_idle ar start htarget ?_, Int.le_refl _⟩
        intro next hnext
        rcases List.mem_cons.1 hnext with rfl | hnext
        · omega
        · have htime := hfirst next hnext
          omega

end

end Pacer

end LakeUpload
