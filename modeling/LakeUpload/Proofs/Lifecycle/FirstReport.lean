import LakeUpload.Proofs.Lifecycle.Frame

/-!
# Trackers in use

Callers report to a tracker, send messages through it and take contexts from it, in any order and
as often as they like. The first report decides: status, failure, answers and the contexts handed
out all follow from it, and no later report leaves a trace.
-/

namespace LakeUpload

open Bytes (ascii)

/-! ## Reports in a setting -/

namespace Setting

variable {σ : Type}

theorem transfer_say (s : Setting Tracker σ) (level : Log.Level) (message : Bytes) :
    (s.say level message).transfer = s.transfer := by
  have hquiet : Quiet s (s.say level message) := quiet_say s level message
  unfold Quiet at hquiet
  rw [hquiet]

theorem transfer_report (s : Setting Tracker σ) (verdict : Verdict) :
    (s.report verdict).transfer = (s.transfer.report verdict).transfer := by
  have hquiet : Quiet { s with transfer := (s.transfer.report verdict).transfer }
      (s.report verdict) := quiet_notices _ _
  unfold Quiet at hquiet
  rw [hquiet]

theorem report_of_ne_started {s : Setting Tracker σ} (h : s.transfer.status ≠ .started)
    (verdict : Verdict) : s.report verdict = s := by
  have hreply : Transfer.report s.transfer verdict =
      { transfer := s.transfer, accepted := some false } :=
    Tracker.report_of_ne_started h verdict
  simp [report, hreply]

end Setting

namespace Tracker

/-! ## The first of several reports -/

variable {tracker : Tracker}

theorem run_cons_eq_report (tracker : Tracker) (verdict : Verdict) (rest : List Verdict) :
    tracker.run (verdict :: rest) = (tracker.report verdict).transfer :=
  run_of_ne_started (tracker.status_report_ne_started verdict) rest

theorem status_run_eq_started_iff (h : tracker.status = .started) {verdicts : List Verdict} :
    (tracker.run verdicts).status = .started ↔ verdicts = [] := by
  cases verdicts with
  | nil =>
      simpa [run] using h
  | cons verdict rest =>
      rw [run_cons_eq_report]
      simpa using tracker.status_report_ne_started verdict

theorem accepted_report (tracker : Tracker) (verdict : Verdict) :
    (tracker.report verdict).accepted = some (decide (tracker.status = .started)) := by
  unfold report
  split <;> simp [*]

/-- The status that the first report, if there was one, leads to. -/
def statusAfter : Option Verdict → Status
  | none => .started
  | some (.failed _ _) => .failed
  | some .cancelled => .cancelled
  | some .succeeded => .succeeded

/-- What is kept of a first report. -/
def failureAfter : Option Verdict → Option Failure
  | some (.failed stage fault) => some ⟨stage ++ ascii ": " ++ fault.message, fault.code⟩
  | _ => none

/-- A tracker as the first report, if there was one, leaves it. -/
structure Decided (first : Option Verdict) (tracker : Tracker) : Prop where
  status : tracker.status = statusAfter first
  failure : tracker.failure = failureAfter first

theorem decided_run (info : Info) (minLevel : Log.Level) (verdicts : List Verdict) :
    ((start info minLevel).run verdicts).Decided verdicts.head? := by
  cases verdicts with
  | nil =>
      exact ⟨rfl, rfl⟩
  | cons verdict rest =>
      rw [run_cons_eq_report]
      cases verdict with
      | failed stage fault =>
          exact ⟨rfl, rfl⟩
      | cancelled =>
          exact ⟨rfl, rfl⟩
      | succeeded =>
          exact ⟨rfl, rfl⟩

theorem Decided.isSome_failure_iff {first : Option Verdict} (h : tracker.Decided first) :
    tracker.failure.isSome = true ↔ tracker.status = .failed := by
  rw [h.failure, h.status]
  rcases first with _ | _ | _ | _ <;> simp [failureAfter, statusAfter]

/-! ## Sessions -/

/-- What callers do with a tracker, and the time that goes by in between. -/
inductive Use where
  | report (verdict : Verdict)
  | say (level : Log.Level) (message : Bytes)
  | context
  | pass (nanos : Int)

def Use.verdict : Use → Option Verdict
  | .report verdict => some verdict
  | _ => none

/-- The reports among some uses, in order. -/
def reports (uses : List Use) : List Verdict := uses.filterMap Use.verdict

theorem reports_append (first second : List Use) :
    reports (first ++ second) = reports first ++ reports second :=
  List.filterMap_append

/-- A tracker in use, where it writes its log, and what its callers got out of it. -/
structure Session (σ : Type) where
  setting : Setting Tracker σ
  /-- For each report, what it was answered. -/
  answers : List (Option Bool) := []
  /-- The contexts that were handed out. -/
  contexts : List CallContext := []

namespace Session

variable {σ : Type}

/-- A session with a new tracker. -/
def start (setting : Setting Tracker σ) (info : Info) (minLevel : Log.Level) : Session σ :=
  { setting := { setting with transfer := .start info minLevel } }

def step (session : Session σ) : Use → Session σ
  | .report verdict =>
      { session with
        setting := session.setting.report verdict
        answers := session.answers ++ [(session.setting.transfer.report verdict).accepted] }
  | .say level message => { session with setting := session.setting.say level message }
  | .context => { session with contexts := session.contexts ++ [session.setting.context] }
  | .pass nanos => { session with setting := session.setting.incur (.pass nanos) }

def run (session : Session σ) (uses : List Use) : Session σ := uses.foldl step session

/-- The answers to some reports: only the first is accepted. -/
def answersTo : List Verdict → List (Option Bool)
  | [] => []
  | _ :: rest => some true :: rest.map fun _ => some false

theorem answersTo_snoc (verdicts : List Verdict) (verdict : Verdict) :
    answersTo (verdicts ++ [verdict]) =
      answersTo verdicts ++ [some (decide (verdicts = []))] := by
  cases verdicts <;> simp [answersTo]

/-- The session came from a new tracker, which was told the verdicts since. -/
structure Told (tracker : Tracker) (verdicts : List Verdict) (session : Session σ) : Prop where
  transfer : session.setting.transfer = tracker.run verdicts
  answers : session.answers = answersTo verdicts
  contexts : ∀ ctx ∈ session.contexts, ctx = tracker.context

theorem told_start (setting : Setting Tracker σ) (info : Info) (minLevel : Log.Level) :
    Told (.start info minLevel) [] (start setting info minLevel) :=
  ⟨rfl, rfl, nofun⟩

section

variable {tracker : Tracker} {verdicts : List Verdict} {session : Session σ}

theorem Told.step (h : Told tracker verdicts session) (hstarted : tracker.status = .started)
    (use : Use) : Told tracker (verdicts ++ reports [use]) (session.step use) := by
  -- only a report adds to the verdicts, and it is answered by whether there was one before
  cases use with
  | report verdict =>
      refine ⟨?_, ?_, h.contexts⟩
      · show (session.setting.report verdict).transfer = tracker.run (verdicts ++ [verdict])
        rw [Setting.transfer_report, h.transfer, Tracker.run_append]
        rfl
      · show session.answers ++ [(session.setting.transfer.report verdict).accepted] =
          answersTo (verdicts ++ [verdict])
        simp only [answersTo_snoc, accepted_report, h.answers, h.transfer,
          status_run_eq_started_iff hstarted]
  | say level message =>
      have hnone : verdicts ++ reports [.say level message] = verdicts := List.append_nil _
      rw [hnone]
      exact ⟨(Setting.transfer_say _ level message).trans h.transfer, h.answers, h.contexts⟩
  | context =>
      have hnone : verdicts ++ reports [.context] = verdicts := List.append_nil _
      rw [hnone]
      refine ⟨h.transfer, h.answers, ?_⟩
      intro ctx hctx
      rcases List.mem_append.1 hctx with hold | hnew
      · exact h.contexts ctx hold
      · rw [List.mem_singleton.1 hnew, ← tracker.context_run verdicts, ← h.transfer]
        rfl
  | pass nanos =>
      have hnone : verdicts ++ reports [.pass nanos] = verdicts := List.append_nil _
      rw [hnone]
      exact ⟨h.transfer, h.answers, h.contexts⟩

theorem Told.run (h : Told tracker verdicts session) (hstarted : tracker.status = .started)
    (uses : List Use) : Told tracker (verdicts ++ reports uses) (session.run uses) := by
  induction uses generalizing verdicts session with
  | nil =>
      simpa [reports, Session.run] using h
  | cons use rest ih =>
      have hrest := ih (h.step hstarted use)
      rwa [List.append_assoc, ← reports_append] at hrest

theorem Told.status_ne_started (h : Told tracker verdicts session)
    (hstarted : tracker.status = .started) (hsome : verdicts ≠ []) :
    session.setting.transfer.status ≠ .started := by
  rw [h.transfer]
  exact fun heq => hsome ((status_run_eq_started_iff hstarted).1 heq)

/-- What a run of a session comes to. -/
structure Settled (verdicts : List Verdict) (session : Session σ) : Prop where
  decided : session.setting.transfer.Decided verdicts.head?
  failed : session.setting.transfer.failure.isSome = true ↔
    session.setting.transfer.status = .failed
  answers : session.answers = answersTo verdicts
  cancelled : ∀ ctx ∈ session.contexts,
    ctx.isCancelled session.setting.transfer.flags = true ↔
      session.setting.transfer.status = .failed ∨ session.setting.transfer.status = .cancelled
  /-- Neither the tracker nor the log notices a report after the first. -/
  ignored : verdicts ≠ [] → ∀ verdict, session.step (.report verdict) =
    { session with answers := session.answers ++ [some false] }
  final : verdicts ≠ [] → ∀ later,
    (session.run later).setting.transfer = session.setting.transfer

end

theorem Told.settled {info : Info} {minLevel : Log.Level} {verdicts : List Verdict}
    {session : Session σ} (h : Told (.start info minLevel) verdicts session) :
    Settled verdicts session := by
  have hdecided : session.setting.transfer.Decided verdicts.head? := by
    rw [h.transfer]
    exact decided_run info minLevel verdicts
  have hreached : session.setting.transfer.Reached := ⟨info, minLevel, verdicts, h.transfer⟩
  constructor
  · exact hdecided
  · exact hdecided.isSome_failure_iff
  · exact h.answers
  · intro ctx hctx
    have hown : ctx = session.setting.transfer.context := by
      rw [h.contexts ctx hctx, h.transfer, context_run]
    rw [hown, hreached.isCancelled]
    exact Status.isDead_iff
  · intro hsome verdict
    have hended := h.status_ne_started rfl hsome
    simp only [Session.step, Setting.report_of_ne_started hended,
      Tracker.report_of_ne_started hended]
  · intro hsome later
    have hended := h.status_ne_started rfl hsome
    rw [(h.run rfl later).transfer, Tracker.run_append, ← h.transfer,
      run_of_ne_started hended]

/-- However a new tracker is used, its first report settles it. -/
theorem first_report_settles (setting : Setting Tracker σ) (info : Info) (minLevel : Log.Level)
    (uses : List Use) :
    Settled (reports uses) ((start setting info minLevel).run uses) :=
  ((told_start setting info minLevel).run rfl uses).settled

example (setting : Setting Tracker σ) (info : Info) (minLevel : Log.Level) :
    ((start setting info minLevel).run
      [.report .cancelled, .context, .report .succeeded]).answers = [some true, some false] := rfl

end Session

end Tracker

end LakeUpload
