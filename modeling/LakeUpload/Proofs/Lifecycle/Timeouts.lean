import LakeUpload.Proofs.Lifecycle.LakeEffect

/-!
# Timeouts

A timeout that is set now ends later, unless its end leaves the range of the clock: the sum wraps
around into the past, and the context is expired from the start. So a cleanup deletes what a dead
upload left behind exactly if its timeout is neither lost on the way to nanoseconds nor too long
for the clock.
-/

namespace LakeUpload

/-- A timeout that starts now ends later, at an instant that the clock can show. -/
def EndsAhead (now nanos : Int) : Prop := 0 < nanos ∧ now + nanos ≤ Clock.last

instance (now nanos : Int) : Decidable (EndsAhead now nanos) :=
  inferInstanceAs (Decidable (_ ∧ _))

/-- A sum that wraps around lies in the past. -/
theorem lt_wrap64_add_iff {now nanos : Int} (hnow : 0 ≤ now ∧ now ≤ Clock.last)
    (hnanos : Clock.first ≤ nanos ∧ nanos ≤ Clock.last) :
    now < wrap64 (now + nanos) ↔ EndsAhead now nanos := by
  unfold EndsAhead
  by_cases hsum : now + nanos ≤ Clock.last
  · have hfirst : Clock.first ≤ now + nanos := by omega
    rw [wrap64_eq_self hfirst hsum]
    omega
  · have hturn : now + nanos - 0x10000000000000000 < 0 := by
      unfold Clock.first Clock.last at *
      omega
    rw [wrap64_of_last_lt (Int.not_le.1 hsum) (by omega)]
    omega

namespace CallContext

/-- A context that is derived now with this timeout is live if the timeout ends ahead, and expired
at once if it does not. -/
structure TimesOut (parent : CallContext) (flags : Flags) (now nanos : Int) : Prop where
  deadline : ∃ deadline, (parent.withTimeout now nanos).deadline = some deadline ∧
    (now < deadline ↔ EndsAhead now nanos)
  check : (parent.withTimeout now nanos).check flags now =
    if EndsAhead now nanos then .ok () else .error (.ofCode .deadlineExceeded)

theorem exists_deadline (ctx : CallContext) (deadline : Int) :
    ∃ earliest, (ctx.withDeadline deadline).deadline = some earliest := by
  unfold withDeadline
  cases ctx.deadline with
  | none =>
      exact ⟨_, rfl⟩
  | some earlier =>
      exact ⟨_, rfl⟩

theorem isExpired_of_deadline {ctx : CallContext} {deadline : Int}
    (h : ctx.deadline = some deadline) (now : Int) :
    ctx.isExpired now = decide (deadline ≤ now) := by
  rw [isExpired, h, Option.any_some]

theorem timesOut_of_live {parent : CallContext} {flags : Flags} {now nanos : Int}
    (hparent : parent.isDone flags now = false) (hnow : 0 ≤ now ∧ now ≤ Clock.last)
    (hnanos : Clock.first ≤ nanos ∧ nanos ≤ Clock.last) : TimesOut parent flags now nanos := by
  unfold isDone at hparent
  rw [Bool.or_eq_false_iff] at hparent
  have hcancelled : (parent.withTimeout now nanos).isCancelled flags = false := hparent.1
  have hexpired : (parent.withTimeout now nanos).isExpired now = !decide (EndsAhead now nanos) := by
    rw [withTimeout, isExpired_withDeadline, hparent.2, Bool.false_or, ← decide_not,
      decide_eq_decide, ← lt_wrap64_add_iff hnow hnanos, Int.not_lt]
  constructor
  · obtain ⟨deadline, hdeadline⟩ := parent.exists_deadline (wrap64 (now + nanos))
    refine ⟨deadline, hdeadline, ?_⟩
    rw [withTimeout, isExpired_of_deadline hdeadline, ← decide_not, decide_eq_decide] at hexpired
    rw [← Int.not_le, hexpired, Classical.not_not]
  · rw [check, hcancelled, hexpired]
    by_cases hahead : EndsAhead now nanos <;> simp [hahead]

end CallContext

namespace Sender

theorem timesOut_cleanupContext (sender : Sender) (flags : Flags) {now : Int}
    (hnow : 0 ≤ now ∧ now ≤ Clock.last) :
    CallContext.background.TimesOut flags now sender.config.cleanupNanos :=
  CallContext.timesOut_of_live rfl hnow (wrap64_range _)

theorem check_cleanupContext (sender : Sender) (flags : Flags) {now : Int}
    (hnow : 0 ≤ now ∧ now ≤ Clock.last) :
    (sender.cleanupContext now).check flags now =
      if EndsAhead now sender.config.cleanupNanos then .ok ()
      else .error (.ofCode .deadlineExceeded) :=
  (sender.timesOut_cleanupContext flags hnow).check

variable {σ : Type} {sender : Sender} {s : Setting Tracker σ}

/-- A delete that is late is not sent, and ends up in a message. -/
theorem cleanup_of_late (service : Service σ) (hphase : sender.phase ≠ .cleanedUp)
    (hdead : s.transfer.status.isDead = true)
    (hlate : (sender.cleanupContext s.clock.steady).check s.transfer.flags s.clock.steady =
      .error (.ofCode .deadlineExceeded)) :
    sender.cleanup service s =
      (sender.cleaned, s.say .error (sender.deleteFailed (.ofCode .deadlineExceeded))) := by
  have hremoved : sender.target.remove service (sender.cleanupContext s.clock.steady) s =
      (.error (.ofCode .deadlineExceeded), s) := Setting.send_of_check_error hlate _ _
  simp [cleanup, hphase, Transfer.isDead, hdead, hremoved]

end Sender

namespace Upload

variable {σ : Type}

/-- The timeout of a cleanup that starts now ends later. -/
def CleanupEndsAhead (upload : Upload Tracker σ) : Prop :=
  EndsAhead upload.setting.clock.steady upload.sender.config.cleanupNanos

instance (upload : Upload Tracker σ) : Decidable upload.CleanupEndsAhead :=
  inferInstanceAs (Decidable (EndsAhead _ _))

/-- The first cleanup of a dead upload sends its delete exactly if its timeout, as it comes out of
the conversion, ends later. A timeout that the clock can count does. A delete that is late from the
start leaves nothing but a message. -/
structure DeletesInTime (service : Service σ) (timeout : Int) (before : Upload Tracker σ) :
    Prop where
  timesOut : CallContext.background.TimesOut before.setting.transfer.flags
    before.setting.clock.steady (wrap64 (timeout * 1000000))
  counted : before.setting.clock.steady + timeout * 1000000 ≤ Clock.last →
    before.CleanupEndsAhead ∧ (before.sender.deletion before.setting).context.deadline =
      some (before.setting.clock.steady + timeout * 1000000)
  calls : (before.step service .cleanup).2.setting.calls = before.setting.calls ++
    if before.CleanupEndsAhead then [before.sender.deletion before.setting] else []
  late : ¬ before.CleanupEndsAhead → (before.step service .cleanup).2.setting =
    before.setting.say .error (before.sender.deleteFailed (.ofCode .deadlineExceeded))

variable {offer : Offer} {tracker : Tracker} {before : Upload Tracker σ}

theorem Kept.cleanupNanos_eq (h : before.Kept offer tracker)
    (hlast : offer.config.cleanupTimeout * 1000000 ≤ Clock.last) :
    before.sender.config.cleanupNanos = offer.config.cleanupTimeout * 1000000 := by
  have hpositive := (Config.validate_eq_ok_iff.1 h.made.valid).2
  have hfirst : Clock.first ≤ offer.config.cleanupTimeout * 1000000 := by
    unfold Clock.first
    omega
  rw [h.made.config]
  exact wrap64_eq_self hfirst hlast

theorem calls_cleanup (service : Service σ) (hphase : before.sender.phase ≠ .cleanedUp)
    (hdead : before.setting.transfer.status.isDead = true)
    (hnow : 0 ≤ before.setting.clock.steady ∧ before.setting.clock.steady ≤ Clock.last) :
    (before.step service .cleanup).2.setting.calls = before.setting.calls ++
      if before.CleanupEndsAhead then [before.sender.deletion before.setting] else [] := by
  have hcheck := before.sender.check_cleanupContext before.setting.transfer.flags hnow
  rw [(sent_step service before .cleanup).calls]
  simp only [sends, hphase, hdead, ne_eq, not_false_eq_true, and_self, if_true]
  by_cases hahead : before.CleanupEndsAhead
  · have hlive := CallContext.check_eq_ok_iff.1 (hcheck.trans (if_pos hahead))
    rw [if_pos hahead, Setting.attempt_of_live hlive]
    rfl
  · have hdone := CallContext.isDone_iff_check.2 ⟨_, hcheck.trans (if_neg hahead)⟩
    rw [if_neg hahead, Setting.attempt, if_pos hdone]

theorem deletesInTime_of_kept (service : Service σ) (hkept : before.Kept offer tracker)
    (hphase : before.sender.phase ≠ .cleanedUp)
    (hdead : before.setting.transfer.status.isDead = true)
    (hnow : 0 ≤ before.setting.clock.steady ∧ before.setting.clock.steady ≤ Clock.last) :
    DeletesInTime service offer.config.cleanupTimeout before := by
  have hconfig := hkept.made.config
  constructor
  · have htimesOut := before.sender.timesOut_cleanupContext before.setting.transfer.flags hnow
    rw [hconfig] at htimesOut
    exact htimesOut
  · intro hcounted
    have hpositive := (Config.validate_eq_ok_iff.1 hkept.made.valid).2
    have hnanos := hkept.cleanupNanos_eq (by omega)
    have hfirst : Clock.first ≤ 0 := by decide
    have hdeadline := wrap64_eq_self (by omega) hcounted
    constructor
    · unfold CleanupEndsAhead EndsAhead
      omega
    · simp [Sender.deletion, Setting.arrival, Sender.cleanupContext_eq, hconfig, hdeadline]
  · exact calls_cleanup service hphase hdead hnow
  · intro hlate
    have hcheck := before.sender.check_cleanupContext before.setting.transfer.flags hnow
    have hexceeded := hcheck.trans (if_neg hlate)
    simp only [step, Sender.cleanup_of_late service hphase hdead hexceeded]

/-- What timeouts are worth that start at this instant. -/
structure TimeoutsAt (now : Int) : Prop where
  derived : ∀ {parent : CallContext} {flags : Flags} {timeout : Int},
    parent.isDone flags now = false → 0 < timeout → timeout ≤ Clock.last →
    parent.TimesOut flags now timeout
  cleanup : ∀ {σ : Type} (service : Service σ) {offer : Offer} {tracker : Tracker}
    {start : Upload Tracker σ} {steps : List Step}, start.Created offer tracker →
    .cleanup ∉ steps → (start.run service steps).setting.clock.steady = now →
    (start.run service steps).setting.transfer.status.isDead = true →
    DeletesInTime service offer.config.cleanupTimeout (start.run service steps)

/-- A timeout ends later exactly if the clock can count it, and the first cleanup of a dead upload
deletes what is left exactly if its own timeout does. -/
theorem timeouts_end_ahead {now : Int} (hnow : 0 ≤ now) (hlast : now ≤ Clock.last) :
    TimeoutsAt now := by
  constructor
  · intro parent flags timeout hparent hpositive htimeout
    apply CallContext.timesOut_of_live hparent ⟨hnow, hlast⟩
    unfold Clock.first
    omega
  · intro σ service offer tracker start steps hstart hsteps hclock hdead
    have hphase : (start.run service steps).sender.phase ≠ .cleanedUp := by
      rw [sender_run]
      exact Sender.phase_afterAll_ne_cleanedUp (by simp [hstart.phase]) hsteps
    apply deletesInTime_of_kept service (hstart.kept.run service steps) hphase hdead
    rw [hclock]
    exact ⟨hnow, hlast⟩

/-- The small upload is cancelled seven nanoseconds after its start. -/
theorem smallUpload_timeouts_end_ahead :
    TimeoutsAt 7 ∧ CallContext.background.TimesOut {} 7 120000000000 ∧
      DeletesInTime DataLake.service 120000 (smallUpload.run DataLake.service [.prologue]) ∧
      (smallUpload.run DataLake.service [.prologue]).CleanupEndsAhead :=
  have htimeouts : TimeoutsAt 7 := timeouts_end_ahead (by decide) (by decide)
  ⟨htimeouts, htimeouts.derived rfl (by decide) (by decide),
    htimeouts.cleanup DataLake.service smallUpload_created (by decide) (by decide +kernel)
      (by decide +kernel), by decide +kernel⟩

/-- The longest timeout is over before it starts, and a cleanup that has it deletes nothing. -/
theorem not_always_ahead :
    (¬ ∀ (parent : CallContext) (flags : Flags) (now timeout : Int),
      parent.isDone flags now = false → 0 ≤ now ∧ now ≤ Clock.last →
      0 < timeout ∧ timeout ≤ Clock.last →
      (parent.withTimeout now timeout).check flags now = .ok ()) ∧
    ¬ ∀ {offer : Offer} {tracker : Tracker} {start : Upload Tracker DataLake} {steps : List Step},
      start.Created offer tracker → .cleanup ∉ steps →
      (start.run DataLake.service steps).setting.transfer.status.isDead = true →
      0 ≤ (start.run DataLake.service steps).setting.clock.steady →
      offer.config.cleanupTimeout ≤ Clock.last →
      ∃ call ∈ (start.run DataLake.service (steps ++ [.cleanup])).setting.calls,
        call.isRemove = true := by
  constructor
  · intro h
    have hlive := h .background {} 1 Clock.last rfl (by decide) (by decide)
    rw [CallContext.check_eq_ok_iff] at hlive
    revert hlive
    decide
  · intro h
    have hsent := @h patientOffer smallTracker patientUpload
      [.prologue, .incident (.report .cancelled)] patientUpload_created (by decide)
      (by decide +kernel) (by decide +kernel) (by decide)
    revert hsent
    decide +kernel

end Upload

end LakeUpload
