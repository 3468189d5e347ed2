import LakeUpload.Proofs.Lifecycle.Trace

/-!
# The delete of a dead upload

The first cleanup decides for good: it deletes what a dead upload left behind, and nothing
otherwise. The delete runs under a deadline of its own, so that the cancellation that killed the
upload does not stop it. No later cleanup does anything.
-/

namespace LakeUpload

/-! ## Messages of an upload -/

namespace Setting

variable {σ : Type}

/-- What a message of the upload adds to the output, if tracker and logger both let it through. -/
def messageOutput (s : Setting Tracker σ) (level : Log.Level) (message : Bytes) : Log.Output :=
  let category := Log.Category.tracker.text
  let details := some s.transfer.details
  if level.passes s.transfer.minLevel = true ∧ s.logger.enabled level = true then
    { heard := s.logger.listener.toList.map fun listener =>
        { listener, level, category, message, details }
      written := s.logger.lineOf s.clock.calendar { level, category, message, details } ++
        [Bytes.newline] }
  else {}

theorem output_say (s : Setting Tracker σ) (level : Log.Level) (message : Bytes) :
    (s.say level message).output = s.output ++ s.messageOutput level message := by
  have hrecord : (s.transfer.note level message).record s.places =
      { level, category := Log.Category.tracker.text, message
        details := some s.transfer.details } := rfl
  cases hpasses : level.passes s.transfer.minLevel with
  | true =>
      rw [say_of_passes hpasses, write, hrecord]
      simp only [Log.Logger.log, Log.Logger.tell, messageOutput, hpasses, true_and]
  | false =>
      simp [say_of_not_passes hpasses, messageOutput, hpasses, Log.Output.append_empty]

end Setting

/-! ## The context of the delete -/

namespace Sender

variable {σ : Type}

theorem cleanupContext_eq (sender : Sender) (now : Int) :
    sender.cleanupContext now =
      { deadline := some (wrap64 (now + sender.config.cleanupTimeout * 1000000)) } := by
  rw [← wrap64_add_wrap64]
  rfl

/-- Only the deadline can stop the delete, which it does if the sum wrapped around. -/
theorem isDone_cleanupContext (sender : Sender) (flags : Flags) (now : Int) :
    (sender.cleanupContext now).isDone flags now =
      decide (wrap64 (now + sender.config.cleanupTimeout * 1000000) ≤ now) := by
  simp [cleanupContext_eq, CallContext.isDone, CallContext.isCancelled, CallContext.isExpired]

/-- The call that deletes the destination. -/
def deletion (sender : Sender) (s : Setting Tracker σ) : Call :=
  { s.arrival (sender.cleanupContext s.clock.steady) with
    request := .remove sender.target.url sender.target.kind.entity }

/-- What the service makes of the delete. -/
def deleted (service : Service σ) (sender : Sender) (s : Setting Tracker σ) : Reaction σ Unit :=
  service.remove s.service (s.arrival (sender.cleanupContext s.clock.steady)) sender.target.url
    sender.target.kind.entity

variable (service : Service σ) {sender : Sender} {s : Setting Tracker σ}

theorem cleanup_of_alive (hdead : s.transfer.status.isDead = false) :
    sender.cleanup service s = (sender.cleaned, s) := by
  by_cases hphase : sender.phase = .cleanedUp
  · rw [cleanup_of_cleanedUp hphase, cleaned_of_cleanedUp hphase]
  · simp [cleanup, hphase, Transfer.isDead, hdead]

theorem remove_of_live
    (hlive : (sender.cleanupContext s.clock.steady).isDone s.transfer.flags s.clock.steady =
      false) :
    sender.target.remove service (sender.cleanupContext s.clock.steady) s =
      ((sender.deleted service s).answer,
        s.received (sender.deletion s) (sender.deleted service s)) :=
  Setting.send_of_live hlive _ _

/-- The setting once the service has worked on the delete. -/
def afterDeletion (service : Service σ) (sender : Sender) (s : Setting Tracker σ) :
    Setting Tracker σ :=
  s.received (sender.deletion s) (sender.deleted service s)

/-- A fault of the service ends up in a message, and nowhere else. -/
theorem cleanup_of_fault (hphase : sender.phase ≠ .cleanedUp)
    (hdead : s.transfer.status.isDead = true)
    (hlive : (sender.cleanupContext s.clock.steady).isDone s.transfer.flags s.clock.steady =
      false) {fault : Fault} (hanswer : (sender.deleted service s).answer = .error fault) :
    sender.cleanup service s = (sender.cleaned,
      (sender.afterDeletion service s).say .error (sender.deleteFailed fault)) := by
  have hremoved := remove_of_live service hlive
  simp [cleanup, hphase, Transfer.isDead, hdead, hremoved, hanswer, afterDeletion]

end Sender

/-! ## The first cleanup and those after it -/

namespace Upload

variable {σ : Type}

theorem step_cleanup_of_cleanedUp (service : Service σ) {upload : Upload Tracker σ}
    (h : upload.sender.phase = .cleanedUp) : upload.step service .cleanup = (.none, upload) := by
  simp only [step, Sender.cleanup_of_cleanedUp h]

/-- One delete is sent that nothing but its own deadline can stop, and a fault of the service makes
one message. -/
structure Deletes (service : Service σ) (timeout : Int) (before after : Upload Tracker σ) :
    Prop where
  calls : after.setting.calls =
    before.setting.calls ++ [before.sender.deletion before.setting]
  live : (before.sender.deletion before.setting).isCancelled = false
  cancelled : before.setting.context.isCancelled
    (before.sender.deletion before.setting).flags = true
  deadline : (before.sender.deletion before.setting).context.deadline =
    some (before.setting.clock.steady + timeout * 1000000)
  complaint : ∀ fault, (before.sender.deleted service before.setting).answer = .error fault →
    after.setting.output = (before.sender.afterDeletion service before.setting).output ++
      (before.sender.afterDeletion service before.setting).messageOutput .error
        (before.sender.deleteFailed fault)

/-- What a first cleanup does, and that it is the last. -/
structure CleansOnce (service : Service σ) (timeout : Int) (before after : Upload Tracker σ) :
    Prop where
  deletes : before.setting.transfer.status.isDead = true → Deletes service timeout before after
  spares : before.setting.transfer.status.isDead = false → after.setting = before.setting
  transfer : after.setting.transfer = before.setting.transfer
  state : after.state = .cleanedUp
  later : ∀ later, (after.run service later).step service .cleanup =
    (.none, after.run service later)
  noRetry : ∀ later, ∃ rest, (after.run service later).setting.calls =
    after.setting.calls ++ rest ∧ ∀ call ∈ rest, call.isRemove = false

/-- Nothing revives a dead transfer, and one that is not dead is not touched. -/
theorem transfer_step_cleanup (service : Service σ) (upload : Upload Tracker σ) :
    (upload.step service .cleanup).2.setting.transfer = upload.setting.transfer := by
  cases hdead : upload.setting.transfer.status.isDead with
  | true =>
      obtain ⟨verdicts, htransfer⟩ := (sent_step service upload .cleanup).transfer
      rw [htransfer, Tracker.run_of_isDead hdead]
  | false =>
      simp only [step, Sender.cleanup_of_alive service hdead]

section

variable {offer : Offer} {tracker : Tracker} {before : Upload Tracker σ}

theorem deletes_of_isDead (service : Service σ) (hkept : before.Kept offer tracker)
    (hphase : before.sender.phase ≠ .cleanedUp)
    (hdead : before.setting.transfer.status.isDead = true)
    (hdeadline : wrap64 (before.setting.clock.steady + offer.config.cleanupTimeout * 1000000) =
      before.setting.clock.steady + offer.config.cleanupTimeout * 1000000) :
    Deletes service offer.config.cleanupTimeout before (before.step service .cleanup).2 := by
  have hcontext := before.sender.cleanupContext_eq before.setting.clock.steady
  rw [hkept.made.config, hdeadline] at hcontext
  have hlive : (before.sender.cleanupContext before.setting.clock.steady).isDone
      before.setting.transfer.flags before.setting.clock.steady = false := by
    have hpositive := (Config.validate_eq_ok_iff.1 hkept.made.valid).2
    rw [Sender.isDone_cleanupContext, hkept.made.config, hdeadline, decide_eq_false_iff_not]
    omega
  constructor
  · rw [(sent_step service before .cleanup).calls]
    simp only [sends, hphase, hdead, ne_eq, not_false_eq_true, and_self, if_true]
    rw [Setting.attempt_of_live hlive]
    rfl
  · simp [Sender.deletion, Setting.arrival, Call.isCancelled, hcontext, CallContext.isCancelled]
  · exact hkept.reached.isCancelled.trans hdead
  · simp [Sender.deletion, Setting.arrival, hcontext]
  · intro fault hfault
    simp only [step, Sender.cleanup_of_fault service hphase hdead hlive hfault, Setting.output_say]

theorem cleansOnce_of_kept (service : Service σ) (hkept : before.Kept offer tracker)
    (hphase : before.sender.phase ≠ .cleanedUp)
    (hdeadline : wrap64 (before.setting.clock.steady + offer.config.cleanupTimeout * 1000000) =
      before.setting.clock.steady + offer.config.cleanupTimeout * 1000000) :
    CleansOnce service offer.config.cleanupTimeout before (before.step service .cleanup).2 := by
  have hphaseAfter : (before.step service .cleanup).2.sender.phase = .cleanedUp := by
    rw [sender_step]
    exact Sender.phase_after_cleanup before.sender
  constructor
  · intro hdead
    exact deletes_of_isDead service hkept hphase hdead hdeadline
  · intro halive
    simp only [step, Sender.cleanup_of_alive service halive]
  · exact transfer_step_cleanup service before
  · exact SenderState.of_eq_cleanedUp_iff.2 hphaseAfter
  · intro later
    apply step_cleanup_of_cleanedUp
    rw [sender_run]
    exact Sender.phase_afterAll_of_cleanedUp hphaseAfter later
  · intro later
    exact ⟨_, (sent_run service _ later).calls,
      once_remove.not_in_trace service hphaseAfter later⟩

end

/-- After any run without one, a cleanup deletes the destination if the transfer is dead and does
nothing if it is not. It is the only one that does anything. -/
theorem first_cleanup_deletes (service : Service σ) {offer : Offer} {tracker : Tracker}
    {start : Upload Tracker σ} (hstart : start.Created offer tracker) {steps : List Step}
    (hsteps : .cleanup ∉ steps)
    (hlow : Clock.first ≤ (start.run service steps).setting.clock.steady +
      offer.config.cleanupTimeout * 1000000)
    (hhigh : (start.run service steps).setting.clock.steady +
      offer.config.cleanupTimeout * 1000000 ≤ Clock.last) :
    CleansOnce service offer.config.cleanupTimeout (start.run service steps)
      ((start.run service steps).step service .cleanup).2 := by
  have hphase : (start.run service steps).sender.phase ≠ .cleanedUp := by
    rw [sender_run]
    exact Sender.phase_afterAll_ne_cleanedUp (by simp [hstart.phase]) hsteps
  exact cleansOnce_of_kept service (hstart.kept.run service steps) hphase
    (wrap64_eq_self hlow hhigh)

/-- The small upload is cancelled while its destination is made. -/
theorem smallUpload_first_cleanup :
    (smallUpload.run DataLake.service [.prologue]).setting.transfer.status = .cancelled ∧
      CleansOnce DataLake.service smallOffer.config.cleanupTimeout
        (smallUpload.run DataLake.service [.prologue])
        ((smallUpload.run DataLake.service [.prologue]).step DataLake.service .cleanup).2 :=
  ⟨by decide +kernel, first_cleanup_deletes DataLake.service smallUpload_created (by decide)
    (by decide +kernel) (by decide +kernel)⟩

end Upload

end LakeUpload
