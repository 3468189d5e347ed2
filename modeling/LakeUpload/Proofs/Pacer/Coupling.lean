import LakeUpload.Pacer.Session
import LakeUpload.Proofs.Pacer.Course
import Mathlib.Data.List.Chain

/-!
# What holds of a bucket at all times

Whatever is done with a pacer, its capacity belongs to its rate, and the tokens are counted up to an
instant that has passed and never comes again. This holds at each moment of a session, those at
which a request begins to wait and comes back included: a wait may change the rate, but it does so
in one piece.
-/

namespace LakeUpload

namespace Pacer

variable {α : Type} (ar : Arithmetic α)

namespace Session

/-! ## Moments -/

/-- The capacity belongs to the rate, and no token of an instant to come is counted. -/
structure Coupled (session : Session α) : Prop where
  capacity : session.bucket.capacity = ar.ofBytes session.bucket.rate
  filled : session.bucket.filled ≤ session.now

/-- A later moment, which is coupled too. -/
structure Onward (session later : Session α) : Prop where
  coupled : later.Coupled ar
  now : session.now ≤ later.now
  filled : session.bucket.filled ≤ later.bucket.filled

variable {ar} {session later last : Session α}

theorem Coupled.refl (h : session.Coupled ar) : session.Onward ar session :=
  ⟨h, Int.le_refl _, Int.le_refl _⟩

theorem Onward.trans (hfirst : session.Onward ar later) (hsecond : later.Onward ar last) :
    session.Onward ar last :=
  ⟨hsecond.coupled, Int.le_trans hfirst.now hsecond.now,
    Int.le_trans hfirst.filled hsecond.filled⟩

instance : IsTrans (Session α) (Onward ar) where
  trans _ _ _ := Onward.trans

namespace Coupled

variable (h : session.Coupled ar)
include h

theorem wait {now : Int} (hnow : session.now ≤ now) : session.Onward ar { session with now } :=
  ⟨⟨h.capacity, Int.le_trans h.filled hnow⟩, hnow, Int.le_refl _⟩

theorem refill :
    session.Onward ar { session with bucket := session.bucket.refill ar session.now } := by
  unfold Bucket.refill
  simp only
  split
  · exact ⟨⟨h.capacity, Int.le_refl _⟩, Int.le_refl _, h.filled⟩
  · exact h.refl

theorem take (bytes : UInt64) :
    session.Onward ar { session with bucket := session.bucket.take ar bytes } :=
  ⟨⟨h.capacity, h.filled⟩, Int.le_refl _, Int.le_refl _⟩

theorem setRate (rate : UInt64) :
    session.Onward ar { session with bucket := session.bucket.setRate ar rate session.now } :=
  ⟨⟨rfl, Int.le_refl _⟩, Int.le_refl _, h.filled⟩

theorem tryTake (bytes : UInt64) :
    session.Onward ar
      { session with bucket := (session.bucket.tryTake ar bytes session.now).2 } := by
  cases hfree : session.bucket.isFree bytes with
  | true =>
      rw [tryTake_of_free hfree]
      exact h.refl
  | false =>
      rw [tryTake_of_not_free hfree]
      split
      · exact h.refill.trans (h.refill.coupled.take bytes)
      · exact h.refill

theorem granted {bytes : UInt64} {bucket : Bucket α}
    (hlook : look ar bytes session.now session.bucket = .granted bucket) :
    session.Onward ar { session with bucket } := by
  by_cases hrate : session.bucket.rate = 0
  · rw [look_of_unlimited ar hrate] at hlook
    cases hlook
    exact h.refl
  · rw [look_of_limited ar hrate] at hlook
    split at hlook
    · cases hlook
      exact h.refill.trans (h.refill.coupled.take bytes)
    · cases hlook

theorem short {bytes : UInt64} {bucket : Bucket α}
    (hlook : look ar bytes session.now session.bucket = .short bucket) :
    session.Onward ar { session with bucket } := by
  rw [eq_refill_of_short ar hlook]
  exact h.refill

end Coupled

end Session

/-! ## Requests -/

section

variable {ω : Type} [Cancellable ω]

/-- The pacer's part of what a request works on. -/
def Desk.session (desk : Desk α ω) : Session α := { bucket := desk.bucket, now := desk.now }

variable {ar} {desk : Desk α ω} (h : desk.session.Coupled ar)
include h

theorem onward_pass {target : Int} (htarget : desk.now ≤ target) (events : List Event) :
    desk.session.Onward ar (pass ar target events desk).1.session := by
  induction events generalizing desk with
  | nil =>
      exact h.wait htarget
  | cons event rest ih =>
      unfold pass
      split
      · have hnow : desk.now ≤ max desk.now event.time := Int.le_max_left _ _
        have hwait := h.wait hnow
        cases event.change with
        | rate rate =>
            -- a new rate ends the slice at once, so the target is never reached
            exact hwait.trans (hwait.coupled.setRate rate)
        | cancel =>
            refine hwait.trans (@ih ⟨_, _, _⟩ hwait.coupled ?_)
            show max desk.now event.time ≤ target
            omega
      · exact h.wait htarget

theorem onward_waitSlice (ctx : CallContext) (bytes : UInt64) (events : List Event) :
    desk.session.Onward ar (waitSlice ar ctx bytes events desk).1.session :=
  onward_pass h (Int.le_of_lt (lt_sliceEnd _ _)) events

/-- From each moment of a request to the next one. -/
theorem isChain_awaitCourse (ctx : CallContext) (bytes : UInt64) (events : List Event) :
    (desk.session :: ((awaitCourse ar ctx bytes events desk).moments.map Desk.session ++
      [(awaitCourse ar ctx bytes events desk).final.session])).IsChain (Session.Onward ar) := by
  fun_induction awaitCourse ar ctx bytes events desk with
  | case1 events desk bucket hlook =>
      exact .cons_cons (h.granted hlook) (.singleton _)
  | case2 events desk bucket hlook hlast =>
      have hshort := h.short hlook
      exact .cons_cons hshort (.cons_cons hshort.coupled.refl (.singleton _))
  | case3 events desk bucket hlook hlast after fault hcheck =>
      have hshort := h.short hlook
      have hslice : Session.Onward ar _ after.1.session :=
        onward_waitSlice hshort.coupled ctx bytes events
      exact .cons_cons hshort (.cons_cons hslice (.cons_cons hslice.coupled.refl (.singleton _)))
  | case4 events desk bucket hlook hlast after hcheck rest ih =>
      have hshort := h.short hlook
      have hslice : Session.Onward ar _ after.1.session :=
        onward_waitSlice hshort.coupled ctx bytes events
      exact .cons_cons hshort (.cons_cons hslice (ih hslice.coupled))

theorem isChain_requestCourse (ctx : CallContext) (bytes : UInt64) (events : List Event) :
    (desk.session :: ((requestCourse ar ctx bytes events desk).moments.map Desk.session ++
      [(requestCourse ar ctx bytes events desk).final.session])).IsChain (Session.Onward ar) := by
  have hnone : [desk.session, desk.session].IsChain (Session.Onward ar) :=
    .cons_cons h.refl (.singleton _)
  unfold requestCourse
  split
  · exact hnone
  · split
    · exact hnone
    · exact isChain_awaitCourse h ctx bytes (inOrder events)

end

/-! ## Sessions -/

namespace Session

/-- The moments at which a request begins to wait and comes back. -/
def within (session : Session α) : Step → List (Session α)
  | .request ctx caller bytes events =>
      (requestCourse ar ctx bytes events
        { bucket := session.bucket, now := session.now, owner := caller }).moments.map Desk.session
  | _ => []

/-- All moments of a session. -/
def timeline (session : Session α) : List Step → List (Session α)
  | [] => [session]
  | step :: rest => session :: (session.within ar step ++ timeline (session.step ar step).2 rest)

/-- A steady clock is not turned back. -/
def Step.Forward (now : Int) : Step → Prop
  | .advance nanos => now ≤ wrap64 (now + nanos)
  | _ => True

def Steady (session : Session α) : List Step → Prop
  | [] => True
  | step :: rest => step.Forward session.now ∧ Steady (session.step ar step).2 rest

/-- What holds of a pacer at a moment. -/
structure Sound (session : Session α) : Prop extends session.Coupled ar where
  /-- Without a limit everything is granted at once, and nothing is taken. -/
  taken : session.bucket.rate = 0 → ∀ bytes,
    session.step ar (.tryTake bytes) = (.taken true, session)
  granted : session.bucket.rate = 0 → ∀ ctx caller bytes events,
    ctx.check caller.flags session.now = .ok () →
      session.within ar (.request ctx caller bytes events) = [] ∧
        session.step ar (.request ctx caller bytes events) = (.waited (some (.ok ())), session)
  /-- A limit that is set where there was none starts with a full bucket. -/
  raised : session.bucket.rate = 0 → ∀ rate,
    session.step ar (.setRate rate) =
      (.none, { session with bucket := Bucket.full ar rate session.now })

theorem exists_timeline_eq_cons (session : Session α) (steps : List Step) :
    ∃ later, session.timeline ar steps = session :: later := by
  cases steps with
  | nil =>
      exact ⟨[], rfl⟩
  | cons step rest =>
      exact ⟨_, rfl⟩

/-- The timeline ends where the run does. -/
theorem getLast?_timeline (session : Session α) (steps : List Step) :
    (session.timeline ar steps).getLast? = some (session.run ar steps) := by
  induction steps generalizing session with
  | nil =>
      rfl
  | cons step rest ih =>
      rw [timeline, List.getLast?_cons, List.getLast?_append, ih]
      rfl

variable {ar} {session : Session α}

theorem step_request (ctx : CallContext) (caller : Caller) (bytes : UInt64) (events : List Event) :
    session.step ar (.request ctx caller bytes events) =
      let course := requestCourse ar ctx bytes events ⟨session.bucket, session.now, caller⟩
      (.waited course.answer, course.final.session) := rfl

theorem isChain_step (h : session.Coupled ar) {step : Step} (hforward : step.Forward session.now) :
    (session :: (session.within ar step ++ [(session.step ar step).2])).IsChain (Onward ar) := by
  have hpair {next : Session α} (hnext : session.Onward ar next) :
      [session, next].IsChain (Onward ar) := .cons_cons hnext (.singleton _)
  cases step with
  | request ctx caller bytes events =>
      rw [step_request]
      exact @isChain_requestCourse _ ar _ _ ⟨session.bucket, session.now, caller⟩ h ctx bytes events
  | tryTake bytes =>
      exact hpair (h.tryTake bytes)
  | setRate rate =>
      exact hpair (h.setRate rate)
  | available =>
      exact hpair h.refill
  | advance nanos =>
      exact hpair (h.wait hforward)

theorem Coupled.step (h : session.Coupled ar) {step : Step} (hforward : step.Forward session.now) :
    (session.step ar step).2.Coupled ar := by
  have hchain := List.isChain_iff_pairwise.1 (isChain_step h hforward)
  exact ((List.pairwise_cons.1 hchain).1 _ (by simp)).coupled

theorem isChain_timeline (h : session.Coupled ar) {steps : List Step}
    (hsteady : session.Steady ar steps) : (session.timeline ar steps).IsChain (Onward ar) := by
  induction steps generalizing session with
  | nil =>
      exact .singleton _
  | cons step rest ih =>
      have hrest := ih (h.step hsteady.1) hsteady.2
      obtain ⟨later, hlater⟩ := exists_timeline_eq_cons ar (session.step ar step).2 rest
      rw [timeline, hlater]
      rw [hlater] at hrest
      exact List.isChain_cons_split.2 ⟨isChain_step h hsteady.1, hrest⟩

/-! ## What each moment is like -/

theorem Coupled.sound (h : session.Coupled ar) : session.Sound ar := by
  refine ⟨h, ?_, ?_, ?_⟩
  · intro hrate bytes
    have hfree : session.bucket.isFree bytes = true := by simp [Bucket.isFree, hrate]
    simp only [Session.step, tryTake_of_free hfree]
  · intro hrate ctx caller bytes events hlive
    have hfree : session.bucket.isFree bytes = true := by simp [Bucket.isFree, hrate]
    have hcourse : requestCourse ar ctx bytes events ⟨session.bucket, session.now, caller⟩ =
        .atOnce (.ok ()) ⟨session.bucket, session.now, caller⟩ := by
      have hcheck : ctx.check (Cancellable.flags caller) session.now = .ok () := hlive
      simp [requestCourse, hcheck, hfree]
    rw [step_request, within, hcourse]
    exact ⟨rfl, rfl⟩
  · intro hrate rate
    simp [Session.step, Bucket.setRate, hrate, Bucket.full]

variable (ar)

/-- At every moment of a session that began with a full bucket the capacity belongs to the rate, and
neither the clock nor the instant up to which tokens are counted goes back from one to the next. The
last of these moments is the one that the steps lead to. -/
theorem timeline_sound (rate : UInt64) (now : Int) {steps : List Step}
    (hsteady : (start ar rate now).Steady ar steps) :
    (∀ session ∈ (start ar rate now).timeline ar steps, session.Sound ar) ∧
      (((start ar rate now).timeline ar steps).Pairwise fun session later =>
        session.now ≤ later.now ∧ session.bucket.filled ≤ later.bucket.filled) ∧
      ((start ar rate now).timeline ar steps).getLast? =
        some ((start ar rate now).run ar steps) := by
  have hstart : (start ar rate now).Coupled ar := ⟨rfl, Int.le_refl _⟩
  have hpairwise := List.isChain_iff_pairwise.1 (isChain_timeline hstart hsteady)
  refine ⟨?_, hpairwise.imp fun honward => ⟨honward.now, honward.filled⟩,
    getLast?_timeline ar _ steps⟩
  intro session hsession
  obtain ⟨later, htimeline⟩ := exists_timeline_eq_cons ar (start ar rate now) steps
  rw [htimeline] at hsession hpairwise
  rcases List.mem_cons.1 hsession with rfl | hlater
  · exact hstart.sound
  · exact ((List.pairwise_cons.1 hpairwise).1 session hlater).coupled.sound

/-- The bucket is emptied, and while a request waits for more the limit is taken away. -/
def smallSteps : List Step :=
  [.advance 1000000000, .tryTake 2,
    .request smallCaller.source.context smallCaller 2 [⟨1000000007, .rate 0⟩], .setRate 5]

theorem smallSteps_sound :
    (start wholes 2 0).Steady wholes smallSteps ∧
      (∀ session ∈ (start wholes 2 0).timeline wholes smallSteps, session.Sound wholes) ∧
      ((start wholes 2 0).timeline wholes smallSteps).Pairwise fun session later =>
        session.now ≤ later.now ∧ session.bucket.filled ≤ later.bucket.filled := by
  have hforward : Step.Forward 0 (.advance 1000000000) := by
    show (0 : Int) ≤ wrap64 (0 + 1000000000)
    decide
  have hsteady : (start wholes 2 0).Steady wholes smallSteps :=
    ⟨hforward, trivial, trivial, trivial, trivial⟩
  obtain ⟨hsound, hpairwise, -⟩ := timeline_sound wholes 2 0 hsteady
  exact ⟨hsteady, hsound, hpairwise⟩

/-- The wait is over when the limit is gone, and the new one starts with a full bucket. -/
example : ((start wholes 2 0).timeline wholes smallSteps).map
      (fun session => (session.now, session.bucket.rate, session.bucket.tokens)) =
    [(0, 2, 2), (1000000000, 2, 2), (1000000000, 2, 0), (1000000000, 2, 0), (1000000007, 0, 0),
      (1000000007, 0, 0), (1000000007, 5, 5)] := by
  cbv

end Session

end Pacer

end LakeUpload
