import LakeUpload.Proofs.Lifecycle.Progress

/-!
# What a prologue answers

A prologue is accepted once, and only before any cleanup. What it answers is what became of the
request for the destination, and a fault of that request goes to the tracker, which believes it
unless it has come to its end by then. Any other prologue is refused and leaves no trace.
-/

namespace LakeUpload

open Bytes (ascii)

/-! ## Contexts of a tracker -/

namespace Tracker

/-- The context of a tracker has no deadline, so that only a death stops a request under it. -/
theorem Reached.isDone_context {tracker : Tracker} (h : tracker.Reached) (now : Int) :
    tracker.context.isDone tracker.flags now = tracker.status.isDead := by
  have hexpired : tracker.context.isExpired now = false := by
    rw [h.context]
    rfl
  rw [CallContext.isDone, hexpired, h.isCancelled, Bool.or_false]

theorem Reached.check_context {tracker : Tracker} (h : tracker.Reached) (now : Int) :
    tracker.context.check tracker.flags now =
      if tracker.status.isDead then .error (.ofCode .operationCancelled) else .ok () := by
  cases hdead : tracker.status.isDead with
  | false =>
      exact CallContext.check_eq_ok_iff.2 ((h.isDone_context now).trans hdead)
  | true =>
      simp [CallContext.check, h.isCancelled, hdead]

/-- A fault that is reported to a tracker under way is what it keeps, and kills it. -/
theorem report_failed_of_started {tracker : Tracker} (h : tracker.status = .started)
    (stage : Bytes) (fault : Fault) :
    (tracker.report (.failed stage fault)).transfer.status = .failed ∧
      (tracker.report (.failed stage fault)).transfer.failure =
        some ⟨stage ++ ascii ": " ++ fault.message, fault.code⟩ := by
  simp [report, h, endOf, failureOf]

end Tracker

/-! ## The request for the destination -/

namespace Sender

variable {σ : Type}

/-- The call that asks for the destination. -/
def creation (sender : Sender) (s : Setting Tracker σ) : Call :=
  { s.arrival s.context with
    request := .create sender.target.url sender.target.kind.entity sender.headers
      s.transfer.info.sourceSize }

/-- What the service makes of it. -/
def created (service : Service σ) (sender : Sender) (s : Setting Tracker σ) : Reaction σ Unit :=
  service.create s.service (s.arrival s.context) sender.target.url sender.target.kind.entity
    sender.headers s.transfer.info.sourceSize

section

variable (service : Service σ) (sender : Sender) {s : Setting Tracker σ}

theorem making_of_isDead (hreached : s.transfer.Reached) (hdead : s.transfer.status.isDead = true) :
    sender.making service s =
      (.error (.ofCode .operationCancelled), s.write (sender.announcement s.transfer.info)) := by
  have hcheck := hreached.check_context s.clock.steady
  rw [hdead, if_pos rfl] at hcheck
  unfold making Target.create
  exact Setting.send_of_check_error (s := s.write (sender.announcement s.transfer.info)) hcheck _ _

theorem making_of_alive (hreached : s.transfer.Reached)
    (halive : s.transfer.status.isDead = false) :
    sender.making service s =
      ((sender.created service s).answer,
        (s.write (sender.announcement s.transfer.info)).received (sender.creation s)
          (sender.created service s)) := by
  have hcheck := hreached.check_context s.clock.steady
  rw [halive, if_neg Bool.false_ne_true] at hcheck
  unfold making Target.create
  exact Setting.send_of_check_ok (s := s.write (sender.announcement s.transfer.info)) hcheck _ _

end

end Sender

/-! ## What the tracker is told -/

/-- What becomes of a tracker when the request that it has come through ends like this. -/
structure Tracker.Told (result : Except Fault Unit) (tracker after : Tracker) : Prop where
  failed : ∀ fault, result = .error fault → tracker.status = .started →
    after.status = .failed ∧
      after.failure = some ⟨ascii "Creating file: " ++ fault.message, fault.code⟩ ∧
      after.context.isCancelled after.flags = true
  ended : tracker.status ≠ .started → after = tracker
  granted : result = .ok () → after = tracker

theorem Tracker.told_report {tracker : Tracker} (h : tracker.Reached) (fault : Fault) :
    tracker.Told (.error fault)
      (tracker.report (.failed Sender.creatingStage fault)).transfer := by
  constructor
  · rintro fault ⟨⟩ hstarted
    have hreported : (tracker.report (.failed Sender.creatingStage fault)).transfer.Reached :=
      h.of_leads (tracker.leads_report _)
    obtain ⟨hstatus, hfailure⟩ := report_failed_of_started hstarted Sender.creatingStage fault
    refine ⟨hstatus, hfailure, ?_⟩
    rw [hreported.isCancelled, hstatus]
    rfl
  · intro hended
    rw [report_of_ne_started hended]
  · intro hgranted
    cases hgranted

namespace Upload

variable {σ : Type}

/-! ## Accepted prologues -/

/-- What comes of an accepted prologue, put in terms of the request that it made. -/
structure Opened (service : Service σ) (before after : Upload Tracker σ) (outcome : Outcome) :
    Prop where
  modified : outcome.modified = true
  granted : outcome.fault = none ↔ (before.sender.making service before.setting).1 = .ok ()
  fault : ∀ fault, outcome.fault = some fault ↔
    (before.sender.making service before.setting).1 = .error fault
  /-- A dead transfer asks the service for nothing. -/
  stopped : before.setting.transfer.status.isDead = true →
    (before.sender.making service before.setting).1 = .error (.ofCode .operationCancelled) ∧
      after.setting.calls = before.setting.calls ∧
      after.setting.service = before.setting.service
  asked : before.setting.transfer.status.isDead = false →
    (before.sender.making service before.setting).1 =
        (before.sender.created service before.setting).answer ∧
      after.setting.calls = before.setting.calls ++ [before.sender.creation before.setting]
  /-- The tracker may have been told something before, while the service worked. -/
  told : Tracker.Told (before.sender.making service before.setting).1
    (before.sender.making service before.setting).2.transfer after.setting.transfer
  final : before.setting.transfer.status ≠ .started →
    after.setting.transfer = before.setting.transfer

section

variable {before : Upload Tracker σ}

/-- What the prologue answers, and what it leaves to the tracker, hangs on its request alone. -/
theorem exists_outcome_told (service : Service σ) (hreached : before.setting.transfer.Reached)
    (hphase : before.sender.phase = .constructed) :
    ∃ outcome, (before.step service .prologue).1 = .outcome outcome ∧
      outcome.modified = true ∧
      (outcome.fault = none ↔ (before.sender.making service before.setting).1 = .ok ()) ∧
      (∀ fault, outcome.fault = some fault ↔
        (before.sender.making service before.setting).1 = .error fault) ∧
      Tracker.Told (before.sender.making service before.setting).1
        (before.sender.making service before.setting).2.transfer
        (before.step service .prologue).2.setting.transfer := by
  have hmade := hreached.of_leads (Sender.leads_making service before.sender before.setting)
  simp only [step, Sender.prologue_of_constructed service _ _ hphase]
  cases hresult : (before.sender.making service before.setting).1 with
  | ok done =>
      refine ⟨_, rfl, rfl, by simp, by simp, ?_, fun _ => rfl, fun _ => rfl⟩
      intro fault hfault
      cases hfault
  | error fault =>
      refine ⟨_, rfl, rfl, by simp, by simp, ?_⟩
      rw [Setting.transfer_report]
      exact Tracker.told_report hmade fault

theorem opened_of_constructed (service : Service σ) (hreached : before.setting.transfer.Reached)
    (hphase : before.sender.phase = .constructed) :
    ∃ outcome, (before.step service .prologue).1 = .outcome outcome ∧
      Opened service before (before.step service .prologue).2 outcome := by
  obtain ⟨outcome, hanswer, hmodified, hgranted, hfault, htold⟩ :=
    exists_outcome_told service hreached hphase
  have hsent := sent_step service before .prologue
  have hmaking := Sender.leads_making service before.sender before.setting
  have hdone : before.setting.context.isDone before.setting.transfer.flags
      before.setting.clock.steady = before.setting.transfer.status.isDead :=
    hreached.isDone_context before.setting.clock.steady
  simp only [sends, hphase, if_true] at hsent
  refine ⟨outcome, hanswer, hmodified, hgranted, hfault, ?_, ?_, htold, ?_⟩
  · intro hdead
    rw [hdead] at hdone
    simp only [Setting.attempt, hdone, if_true] at hsent
    refine ⟨?_, hsent.calls.trans (List.append_nil _), hsent.service⟩
    rw [Sender.making_of_isDead service before.sender hreached hdead]
  · intro halive
    rw [halive] at hdone
    rw [Setting.attempt_of_live hdone] at hsent
    refine ⟨?_, hsent.calls⟩
    rw [Sender.making_of_alive service before.sender hreached halive]
  · intro hended
    have hsame := hmaking.eq_of_ne_started hended
    rw [htold.ended (by rwa [hsame]), hsame]

end

/-! ## All prologues of a run -/

/-- What a prologue that comes after some steps does. -/
structure PrologueAnswers (service : Service σ) (steps : List Step) (before : Upload Tracker σ) :
    Prop where
  constructed : before.sender.phase = .constructed ↔ .prologue ∉ steps ∧ .cleanup ∉ steps
  accepted : before.sender.phase = .constructed →
    ∃ outcome, (before.step service .prologue).1 = .outcome outcome ∧
      Opened service before (before.step service .prologue).2 outcome
  /-- Nothing of sender and setting is touched, the flush threshold and the log included. -/
  refused : before.sender.phase ≠ .constructed →
    ∃ fault, fault.code = .invalidState ∧
      before.step service .prologue =
        (.outcome { modified := false, fault := some fault }, before)

/-- After any run a prologue answers what became of its request for the destination, and is refused
without a trace if one was asked for before or the upload was cleaned up. -/
theorem prologue_answers (service : Service σ) {offer : Offer} {tracker : Tracker}
    {start : Upload Tracker σ} (hstart : start.Created offer tracker) (steps : List Step) :
    PrologueAnswers service steps (start.run service steps) := by
  constructor
  · rw [sender_run]
    exact phase_afterAll_eq_constructed_iff hstart.phase
  · intro hphase
    exact opened_of_constructed service (hstart.kept.run service steps).reached hphase
  · intro hphase
    refine ⟨(start.run service steps).sender.prologueRan, rfl, ?_⟩
    simp only [step, Sender.prologue_of_ne_constructed hphase]

def accessDenied : Fault := ⟨.accessDenied, ascii "no"⟩

/-- The small upload, to a lake that denies the destination. -/
def deniedUpload : Upload Tracker DataLake :=
  { smallUpload with
    setting := { smallUpload.setting with service := { onCreate := { fault := accessDenied } } } }

theorem deniedUpload_created : deniedUpload.Created smallOffer smallTracker :=
  ⟨⟨_, _, [], rfl⟩, { smallSetting with service := deniedUpload.setting.service }, rfl, rfl,
    by rfl, rfl⟩

/-- The fault of the lake is the answer, and kills the transfer in its own words. -/
theorem deniedUpload_prologue_answers :
    deniedUpload.Created smallOffer smallTracker ∧
      PrologueAnswers DataLake.service [.destinationLength]
        (deniedUpload.run DataLake.service [.destinationLength]) ∧
      (deniedUpload.run DataLake.service [.destinationLength]).sender.phase = .constructed ∧
      ((deniedUpload.run DataLake.service [.destinationLength]).step DataLake.service
        .prologue).1 = .outcome { modified := true, fault := some accessDenied } ∧
      ((deniedUpload.run DataLake.service [.destinationLength]).step DataLake.service
        .prologue).2.setting.transfer.failure =
          some ⟨ascii "Creating file: no", .accessDenied⟩ :=
  ⟨deniedUpload_created, prologue_answers DataLake.service deniedUpload_created _,
    by decide +kernel, by rfl, by decide +kernel⟩

end Upload

end LakeUpload
