import LakeUpload.Proofs.Pacer.Waiting

/-!
# What a request answers

A request answers what its context says at the instant of the answer. A refusal takes no tokens, a
grant takes those of all its bytes at once. No arithmetic can keep a request from noticing a
cancellation within one slice, nor from coming back at its deadline: slices are cut off before the
instant that they end at is used, and each of them takes some time.
-/

namespace LakeUpload

theorem wrap64_le_of_nonneg {n : Int} (h : 0 ≤ n) : wrap64 n ≤ n := by
  unfold wrap64
  rw [Int.bmod_def]
  split <;> omega

theorem CallContext.lt_deadline_of_check_ok {ctx : CallContext} {flags : Flags} {now deadline : Int}
    (hdeadline : ctx.deadline = some deadline) (h : ctx.check flags now = .ok ()) :
    now < deadline := by
  rw [check_eq_ok_iff, isDone, Bool.or_eq_false_iff] at h
  simpa [isExpired, hdeadline] using h.2

theorem CallContext.not_cancelled_of_check_ok {ctx : CallContext} {flags : Flags} {now : Int}
    (h : ctx.check flags now = .ok ()) : ctx.isCancelled flags = false := by
  rw [check_eq_ok_iff, isDone, Bool.or_eq_false_iff] at h
  exact h.1

namespace Pacer

variable {α ω : Type} [Cancellable ω] (ar : Arithmetic α)

/-! ## Slices -/

section

variable (ctx : CallContext) (bytes : UInt64) (bucket : Bucket α) {now : Int}

theorem slice_le : slice ar ctx bytes bucket now ≤ maxSlice := by
  unfold slice
  cases ctx.remaining now with
  | none =>
      exact Int.min_le_right _ _
  | some left =>
      exact Int.le_trans (Int.min_le_left _ _) (Int.min_le_right _ _)

/-- A slice ends in time for a cancellation to be noticed. -/
theorem sliceEnd_le : sliceEnd now (slice ar ctx bytes bucket now) ≤ now + 50000000 := by
  have hslice : slice ar ctx bytes bucket now ≤ 50000 := slice_le ar ctx bytes bucket
  unfold sliceEnd
  split <;> omega

/-- A slice passes the deadline by less than the microsecond that it takes at least. -/
theorem sliceEnd_lt {deadline : Int} (hdeadline : ctx.deadline = some deadline)
    (hnow : now < deadline) :
    sliceEnd now (slice ar ctx bytes bucket now) < deadline + 1000 := by
  have hleft : wrap64 (deadline - now) ≤ deadline - now := wrap64_le_of_nonneg (by omega)
  have hslice : slice ar ctx bytes bucket now ≤ (max (wrap64 (deadline - now)) 0).tdiv 1000 := by
    simp only [slice, CallContext.remaining, hdeadline, Option.map_some]
    exact Int.min_le_right _ _
  rw [Int.tdiv_eq_ediv_of_nonneg (Int.le_max_right _ _)] at hslice
  unfold sliceEnd
  split <;> omega

end

/-! ## A look at the bucket -/

section

variable {bytes : UInt64} {now : Int} {bucket : Bucket α}

theorem look_of_unlimited (hrate : bucket.rate = 0) :
    look ar bytes now bucket = .granted bucket := by
  simp [look, hrate]

theorem look_of_limited (hrate : bucket.rate ≠ 0) :
    look ar bytes now bucket =
      if ar.le (needed ar bytes (bucket.refill ar now)) (bucket.refill ar now).tokens then
        .granted ((bucket.refill ar now).take ar bytes)
      else .short (bucket.refill ar now) := by
  simp [look, hrate]

theorem rate_refill (now : Int) (bucket : Bucket α) :
    (bucket.refill ar now).rate = bucket.rate := by
  simp only [Bucket.refill]
  split <;> rfl

theorem eq_refill_of_short {short : Bucket α}
    (h : look ar bytes now bucket = .short short) : short = bucket.refill ar now := by
  by_cases hrate : bucket.rate = 0
  · simp [look_of_unlimited ar hrate] at h
  · rw [look_of_limited ar hrate] at h
    split at h
    · cases h
    · exact (Look.short.inj h).symm

end

/-- One turn of a wait: the tokens are counted and found short, and a slice goes by. -/
theorem waited_turn (ctx : CallContext) {bytes : UInt64} {events : List Event} {desk : Desk α ω}
    {bucket : Bucket α} (hsorted : events.Pairwise (·.time ≤ ·.time))
    (hlook : look ar bytes desk.now desk.bucket = .short bucket) :
    ∃ deeds, Waited ar desk events deeds
        (waitSlice ar ctx bytes events { desk with bucket }).1
        (waitSlice ar ctx bytes events { desk with bucket }).2 ∧
      (waitSlice ar ctx bytes events { desk with bucket }).1.now ≤
        sliceEnd desk.now (slice ar ctx bytes bucket desk.now) := by
  obtain rfl := eq_refill_of_short ar hlook
  obtain ⟨deeds, hdeeds, hend⟩ := waited_pass ar
    { desk with bucket := desk.bucket.refill ar desk.now } hsorted
    (Int.le_of_lt (lt_sliceEnd desk.now (slice ar ctx bytes _ desk.now)))
  exact ⟨_, (waited_refill ar desk events).trans hdeeds, hend⟩

section

variable {ar} {ctx : CallContext} {bytes : UInt64} {events pending : List Event}
variable {desk after : Desk α ω} {bucket : Bucket α}

theorem awaitCourse_of_granted (hlook : look ar bytes desk.now desk.bucket = .granted bucket) :
    awaitCourse ar ctx bytes events desk = .atOnce (.ok ()) { desk with bucket } := by
  rw [awaitCourse, hlook]

/-- A turn that leaves the context alive is followed by the next one. -/
theorem awaitCourse_of_live (hlook : look ar bytes desk.now desk.bucket = .short bucket)
    (hnow : desk.now < Clock.last)
    (hslice : waitSlice ar ctx bytes events { desk with bucket } = (after, pending))
    (hlive : ctx.check (Cancellable.flags after.owner) after.now = .ok ()) :
    awaitCourse ar ctx bytes events desk =
      { awaitCourse ar ctx bytes pending after with
        moments := { desk with bucket } :: after ::
          (awaitCourse ar ctx bytes pending after).moments } := by
  rw [awaitCourse, hlook]
  simp only [Int.not_le.2 hnow, if_false, hslice, hlive]

end

/-! ## Answers -/

/-- The answer comes within one slice of the deed that cancelled the context. -/
def Prompt (ctx : CallContext) (owner : ω) (deeds : List Deed) (now : Int) : Prop :=
  ∀ earlier deed later, deeds = earlier ++ deed :: later →
    Deed.cancelled ctx owner (earlier ++ [deed]) = true → now ≤ deed.time + 50000000

/-- How a request ends that has waited by some deeds. -/
structure Ends (ctx : CallContext) (bytes : UInt64) (owner : ω) (deeds : List Deed)
    (waited after : Desk α ω) (answer : Except Fault Unit) : Prop where
  checked : ctx.check (Cancellable.flags after.owner) after.now = answer
  refused : ∀ fault, answer = .error fault → after = waited
  free : answer = .ok () → bytes = 0 ∨ waited.bucket.rate = 0 → after = waited
  /-- One deduction of all the bytes is made, and nothing else is changed. -/
  taken : answer = .ok () → bytes ≠ 0 → waited.bucket.rate ≠ 0 →
    ar.le (needed ar bytes waited.bucket) waited.bucket.tokens = true ∧
      after = { waited with
        bucket := { waited.bucket with
          tokens := ar.sub waited.bucket.tokens (ar.ofBytes bytes) } }
  prompt : Prompt ctx owner deeds after.now

section

variable {ar} {ctx : CallContext} {bytes : UInt64} {events pending : List Event}
variable {owner : ω} {deeds more : List Deed} {desk waited after : Desk α ω}

theorem prompt_nil {now : Int} : Prompt ctx owner [] now := by
  intro earlier deed later hsplit
  simp at hsplit

theorem prompt_of_not_cancelled [CancelsForGood ω] (h : Deed.cancelled ctx owner deeds = false)
    (now : Int) : Prompt ctx owner deeds now := by
  rintro earlier deed later rfl hcancelled
  have hlater := Deed.cancelled_append hcancelled later
  rw [← List.append_cons, h] at hlater
  cases hlater

theorem Prompt.append [CancelsForGood ω] {now : Int}
    (hfirst : Deed.cancelled ctx owner deeds = false)
    (hsecond : Prompt ctx (deeds.foldl Deed.onOwner owner) more now) :
    Prompt ctx owner (deeds ++ more) now := by
  intro earlier deed later hsplit hcancelled
  rcases List.append_eq_append_iff.1 hsplit with ⟨middle, rfl, hmore⟩ | ⟨middle, hdeeds, hlater⟩
  · refine hsecond middle deed later hmore ?_
    rwa [List.append_assoc, Deed.cancelled, List.foldl_append] at hcancelled
  · cases middle with
    | nil =>
        rw [List.append_nil] at hdeeds
        subst hdeeds
        refine hsecond [] deed later hlater.symm ?_
        rwa [Deed.cancelled, List.foldl_append] at hcancelled
    | cons head rest =>
        -- the context was still alive when all of the first deeds were done
        obtain ⟨rfl, -⟩ := List.cons.inj hlater
        exact prompt_of_not_cancelled hfirst now earlier deed rest hdeeds hcancelled

/-- A context that is alive was not cancelled by anything before. -/
theorem Waited.not_cancelled (h : Waited ar desk events deeds after pending)
    (hlive : ctx.check (Cancellable.flags after.owner) after.now = .ok ()) :
    Deed.cancelled ctx desk.owner deeds = false := by
  rw [Deed.cancelled, ← h.owner]
  exact CallContext.not_cancelled_of_check_ok hlive

/-- All deeds of a single slice are as late as the slice's start. -/
theorem Waited.prompt (h : Waited ar desk events deeds after pending)
    (hend : after.now ≤ desk.now + 50000000) : Prompt ctx owner deeds after.now := by
  rintro earlier deed later rfl -
  have hbetween := h.between deed (by simp)
  omega

theorem ends_granted [CancelsForGood ω] {bucket : Bucket α} (hbytes : bytes ≠ 0)
    (hlive : ctx.check (Cancellable.flags desk.owner) desk.now = .ok ())
    (hlook : look ar bytes desk.now desk.bucket = .granted bucket) :
    ∃ deeds waited, Waited ar desk events deeds waited events ∧
      Ends ar ctx bytes desk.owner deeds waited { desk with bucket } (.ok ()) := by
  by_cases hrate : desk.bucket.rate = 0
  · rw [look_of_unlimited ar hrate] at hlook
    obtain rfl := Look.granted.inj hlook
    refine ⟨[], desk, waited_refl ar desk events, hlive, nofun, fun _ _ => rfl, ?_, ?_⟩
    · intro _ _ hlimited
      exact absurd hrate hlimited
    · exact prompt_of_not_cancelled ((waited_refl ar desk events).not_cancelled hlive) _
  · rw [look_of_limited ar hrate] at hlook
    split at hlook
    · rename_i henough
      obtain rfl := Look.granted.inj hlook
      refine ⟨_, _, waited_refill ar desk events, hlive, nofun, ?_, ?_, ?_⟩
      · rintro - (hnone | hunlimited)
        · exact absurd hnone hbytes
        · rw [rate_refill] at hunlimited
          exact absurd hunlimited hrate
      · exact fun _ _ _ => ⟨henough, rfl⟩
      · have hwaited := waited_refill ar desk events
        exact prompt_of_not_cancelled (hwaited.not_cancelled hlive) _
    · cases hlook

end

section

variable (ctx : CallContext) (bytes : UInt64) (events : List Event) (desk : Desk α ω)

/-- Slice by slice: what was done so far is no grant, and the context was alive at its end. -/
theorem awaitCourse_ends [CancelsForGood ω] (hbytes : bytes ≠ 0)
    (hsorted : events.Pairwise (·.time ≤ ·.time))
    (hlive : ctx.check (Cancellable.flags desk.owner) desk.now = .ok ())
    {answer : Except Fault Unit} (h : (awaitCourse ar ctx bytes events desk).answer = some answer) :
    ∃ deeds waited pending, Waited ar desk events deeds waited pending ∧
      Ends ar ctx bytes desk.owner deeds waited (awaitCourse ar ctx bytes events desk).final
        answer := by
  fun_induction awaitCourse ar ctx bytes events desk with
  | case1 events desk bucket hlook =>
      obtain rfl := Option.some.inj h
      obtain ⟨deeds, waited, hwaited, hends⟩ := ends_granted hbytes hlive hlook
      exact ⟨deeds, waited, events, hwaited, hends⟩
  | case2 events desk bucket hlook hlast =>
      cases h
  | case3 events desk bucket hlook hlast after fault hcheck =>
      obtain rfl := Option.some.inj h
      obtain ⟨deeds, hwaited, hend⟩ := waited_turn ar ctx hsorted hlook
      refine ⟨_, after.1, after.2, hwaited, hcheck, fun _ _ => rfl, nofun, nofun, ?_⟩
      exact hwaited.prompt (Int.le_trans hend (sliceEnd_le ar ctx bytes _))
  | case4 events desk bucket hlook hlast after hcheck rest ih =>
      obtain ⟨deeds, hwaited, _⟩ := waited_turn ar ctx hsorted hlook
      obtain ⟨more, waited, pending, hmore, hends⟩ := ih (hwaited.sorted hsorted) hcheck h
      refine ⟨_, waited, pending, hwaited.trans hmore, ?_⟩
      refine ⟨hends.checked, hends.refused, hends.free, hends.taken, ?_⟩
      refine Prompt.append ?_ ?_
      · exact hwaited.not_cancelled hcheck
      · rw [← hwaited.owner]
        exact hends.prompt

theorem awaitCourse_returns {deadline : Int} (hdeadline : ctx.deadline = some deadline)
    (hlast : deadline ≤ Clock.last) (hsorted : events.Pairwise (·.time ≤ ·.time))
    (hlive : ctx.check (Cancellable.flags desk.owner) desk.now = .ok ()) :
    ∃ answer, (awaitCourse ar ctx bytes events desk).answer = some answer ∧
      (awaitCourse ar ctx bytes events desk).final.now < deadline + 1000 := by
  have hnow := CallContext.lt_deadline_of_check_ok hdeadline hlive
  fun_induction awaitCourse ar ctx bytes events desk with
  | case1 events desk bucket hlook =>
      refine ⟨_, rfl, ?_⟩
      show desk.now < deadline + 1000
      omega
  | case2 events desk bucket hlook hend =>
      omega
  | case3 events desk bucket hlook hend after fault hcheck =>
      obtain ⟨deeds, _, hslice⟩ := waited_turn ar ctx hsorted hlook
      exact ⟨_, rfl, Int.lt_of_le_of_lt hslice (sliceEnd_lt ar ctx bytes bucket hdeadline hnow)⟩
  | case4 events desk bucket hlook hend after hcheck rest ih =>
      obtain ⟨deeds, hwaited, _⟩ := waited_turn ar ctx hsorted hlook
      exact ih (hwaited.sorted hsorted) hcheck
        (CallContext.lt_deadline_of_check_ok hdeadline hcheck)

/-! ## Requests -/

theorem pairwise_inOrder (events : List Event) :
    (inOrder events).Pairwise (·.time ≤ ·.time) := by
  refine List.Pairwise.imp of_decide_eq_true (List.pairwise_mergeSort ?_ ?_ events)
  · intro a b c hab hbc
    simp only [decide_eq_true_eq] at hab hbc ⊢
    omega
  · intro a b
    simp only [Bool.or_eq_true, decide_eq_true_eq]
    omega

section

variable {ctx bytes events} {start : Desk α ω}

theorem request_of_check_error {fault : Fault}
    (hcheck : ctx.check (Cancellable.flags start.owner) start.now = .error fault) :
    request ar ctx bytes events start = (some (.error fault), start) := by
  simp [request, requestCourse, hcheck, Course.atOnce]

theorem request_of_free (hcheck : ctx.check (Cancellable.flags start.owner) start.now = .ok ())
    (hfree : bytes = 0 ∨ start.bucket.rate = 0) :
    request ar ctx bytes events start = (some (.ok ()), start) := by
  simp [request, requestCourse, hcheck, Bucket.isFree, hfree, Course.atOnce]

theorem request_of_not_free
    (hcheck : ctx.check (Cancellable.flags start.owner) start.now = .ok ())
    (hfree : ¬ (bytes = 0 ∨ start.bucket.rate = 0)) :
    request ar ctx bytes events start =
      ((awaitCourse ar ctx bytes (inOrder events) start).answer,
        (awaitCourse ar ctx bytes (inOrder events) start).final) := by
  simp [request, requestCourse, hcheck, Bucket.isFree, hfree]

end

/-- What comes of a request under a context. -/
structure KeepsContext (start : Desk α ω) : Prop where
  ends : ∀ answer, (request ar ctx bytes events start).1 = some answer →
    ∃ deeds waited pending, Waited ar start (inOrder events) deeds waited pending ∧
      Ends ar ctx bytes start.owner deeds waited (request ar ctx bytes events start).2 answer
  /-- A context that is done from the start is answered at once. -/
  stopped : ∀ fault, ctx.check (Cancellable.flags start.owner) start.now = .error fault →
    request ar ctx bytes events start = (some (.error fault), start)
  /-- Deadlines are instants of the clock. -/
  returns : ∀ deadline, ctx.deadline = some deadline → start.now < deadline →
    deadline ≤ Clock.last →
      ∃ answer, (request ar ctx bytes events start).1 = some answer ∧
        (request ar ctx bytes events start).2.now < deadline + 1000

theorem request_ends [CancelsForGood ω] (start : Desk α ω) {answer : Except Fault Unit}
    (h : (request ar ctx bytes events start).1 = some answer) :
    ∃ deeds waited pending, Waited ar start (inOrder events) deeds waited pending ∧
      Ends ar ctx bytes start.owner deeds waited (request ar ctx bytes events start).2 answer := by
  cases hcheck : ctx.check (Cancellable.flags start.owner) start.now with
  | error fault =>
      rw [request_of_check_error ar hcheck] at h ⊢
      obtain rfl := Option.some.inj h
      exact ⟨[], start, _, waited_refl ar start _, hcheck, fun _ _ => rfl, nofun, nofun,
        prompt_nil⟩
  | ok done =>
      by_cases hfree : bytes = 0 ∨ start.bucket.rate = 0
      · rw [request_of_free ar hcheck hfree] at h ⊢
        obtain rfl := Option.some.inj h
        refine ⟨[], start, _, waited_refl ar start _, hcheck, nofun, fun _ _ => rfl, ?_,
          prompt_nil⟩
        intro _ hbytes hrate
        exact absurd hfree (not_or.2 ⟨hbytes, hrate⟩)
      · rw [request_of_not_free ar hcheck hfree] at h ⊢
        exact awaitCourse_ends ar ctx bytes _ start (not_or.1 hfree).1 (pairwise_inOrder events)
          hcheck h

theorem request_returns (start : Desk α ω) {deadline : Int}
    (hdeadline : ctx.deadline = some deadline) (hnow : start.now < deadline)
    (hlast : deadline ≤ Clock.last) :
    ∃ answer, (request ar ctx bytes events start).1 = some answer ∧
      (request ar ctx bytes events start).2.now < deadline + 1000 := by
  have hstart : start.now < deadline + 1000 := by omega
  cases hcheck : ctx.check (Cancellable.flags start.owner) start.now with
  | error fault =>
      rw [request_of_check_error ar hcheck]
      exact ⟨_, rfl, hstart⟩
  | ok done =>
      by_cases hfree : bytes = 0 ∨ start.bucket.rate = 0
      · rw [request_of_free ar hcheck hfree]
        exact ⟨_, rfl, hstart⟩
      · rw [request_of_not_free ar hcheck hfree]
        exact awaitCourse_returns ar ctx bytes _ start hdeadline hlast (pairwise_inOrder events)
          hcheck

/-- Whatever the arithmetic comes out at, and whatever happens during the wait, a request keeps to
its context. -/
theorem request_keeps_context [CancelsForGood ω] (start : Desk α ω) :
    KeepsContext ar ctx bytes events start := by
  constructor
  · intro answer h
    exact request_ends ar ctx bytes events start h
  · intro fault hcheck
    exact request_of_check_error ar hcheck
  · intro deadline hdeadline hnow hlast
    exact request_returns ar ctx bytes events start hdeadline hnow hlast

end

/-! ## A small request -/

/-- Arithmetic on whole numbers, rounded down. -/
def wholes : Arithmetic Int where
  zero := 0
  ofBytes bytes := bytes.toNat
  seconds nanos := nanos / 1000000000
  add := Int.add
  sub := Int.sub
  mul := Int.mul
  div a b := a / b
  lt a b := a < b
  le a b := a ≤ b
  micros secs := secs * 1000000
  toBytes n := .ofNat n.toNat

def smallCaller : Caller := { source := ⟨some ⟨0⟩⟩, flags := ⟨[false]⟩ }

/-- An empty bucket, which gets two tokens a second. -/
def smallDesk : Desk Int Caller :=
  { bucket := { Bucket.full wholes 2 0 with tokens := 0 }, now := 0, owner := smallCaller }

/-- The small desk one slice before its bucket has filled up, and when it has. -/
def waitingDesk : Desk Int Caller := { smallDesk with now := 950000000 }

def laterDesk : Desk Int Caller := { smallDesk with now := 1000000000 }

theorem waitingDesk_granted :
    request wholes smallCaller.source.context 3 [] waitingDesk =
      (some (.ok ()),
        { laterDesk with
          bucket := { laterDesk.bucket with tokens := -1, filled := 1000000000 } }) := by
  have hnone : inOrder [] = [] := List.mergeSort_nil
  have hslice : waitSlice wholes smallCaller.source.context 3 [] waitingDesk = (laterDesk, []) := by
    rfl
  rw [request_of_not_free wholes rfl (by decide), hnone,
    awaitCourse_of_live rfl (by decide) hslice rfl, awaitCourse_of_granted rfl]
  rfl

/-- A cancelled request, and one for more than the bucket can hold, which leaves it in debt. -/
theorem smallDesk_keeps_context :
    CancelsForGood Caller ∧
      KeepsContext wholes (smallCaller.source.context.withDeadline 70000000) 2 [⟨7, .cancel⟩]
        smallDesk ∧
      KeepsContext wholes smallCaller.source.context 3 [] waitingDesk ∧
      request wholes smallCaller.source.context 3 [] waitingDesk =
        (some (.ok ()),
          { laterDesk with
            bucket := { laterDesk.bucket with tokens := -1, filled := 1000000000 } }) :=
  ⟨inferInstance, request_keeps_context wholes _ 2 [⟨7, .cancel⟩] smallDesk,
    request_keeps_context wholes _ 3 [] waitingDesk, waitingDesk_granted⟩

/-- The cancellation is noticed when the slice is over. -/
example : (request wholes smallCaller.source.context 2 [⟨7, .cancel⟩] smallDesk).2.now =
    50000000 := by
  cbv

end Pacer

end LakeUpload
