import LakeUpload.Transfer.Basic

/-!
# Trackers

A tracker believes the first report and drops every later one. A failure or a cancellation raises
the flag of its contexts, a success does not.
-/

namespace LakeUpload

open Bytes (ascii)

/-- What a tracker keeps of a failure. -/
structure Failure where
  message : Bytes
  code : Code
  deriving DecidableEq, Repr

structure Tracker where
  info : Info
  /-- Messages of the upload below this level are dropped. -/
  minLevel : Log.Level := .info
  status : Status := .started
  failure : Option Failure := none
  source : CancelSource := ⟨some ⟨0⟩⟩
  flags : Flags := ⟨[false]⟩
  deriving DecidableEq, Repr

namespace Tracker

/-- A tracker to which nothing was reported yet. -/
def start (info : Info) (minLevel : Log.Level) : Tracker := { info, minLevel }

def context (tracker : Tracker) : CallContext := tracker.source.context

def details (tracker : Tracker) : Log.Details :=
  { transferId := tracker.info.transferId
    source := tracker.info.source
    destination := tracker.info.destination }

/-- The end that a report stands for. -/
def endOf : Verdict → Status
  | .failed _ _ => .failed
  | .cancelled => .cancelled
  | .succeeded => .succeeded

def failureOf : Verdict → Option Failure
  | .failed stage fault => some ⟨stage ++ ascii ": " ++ fault.message, fault.code⟩
  | _ => none

/-- The message that a report leaves in the log. -/
def messageOf (tracker : Tracker) : Verdict → Log.Message
  | .failed stage fault =>
      { level := .error
        category := .tracker
        text := ascii "transfer failed"
        details :=
          some { tracker.details with stage := some stage, errorMessage := some fault.message }
        site := some .failed }
  | .cancelled =>
      { level := .info
        category := .tracker
        text := ascii "transfer cancelled"
        details := some tracker.details
        site := some .cancelled }
  | .succeeded =>
      { level := .debug
        category := .tracker
        text := ascii "transfer succeeded"
        details := some tracker.details
        site := some .succeeded }

def report (tracker : Tracker) (verdict : Verdict) : Reply Tracker :=
  if tracker.status = .started then
    { transfer :=
        { tracker with
          status := endOf verdict
          failure := (failureOf verdict).or tracker.failure
          flags :=
            if (endOf verdict).isDead then tracker.source.cancel tracker.flags
            else tracker.flags }
      notices := [.log (tracker.messageOf verdict)]
      accepted := some true }
  else { transfer := tracker, accepted := some false }

/-- A message of the upload, which is logged without a place. -/
def note (tracker : Tracker) (level : Log.Level) (text : Bytes) : Log.Message :=
  { level, category := .tracker, text, details := some tracker.details }

def say (tracker : Tracker) (level : Log.Level) (message : Bytes) : List Notice :=
  if level.passes tracker.minLevel then [.log (tracker.note level message)] else []

instance : Transfer Tracker where
  info := Tracker.info
  flags := Tracker.flags
  context := Tracker.context
  status := Tracker.status
  isDead tracker := tracker.status.isDead
  report := Tracker.report
  say := Tracker.say

theorem report_of_ne_started {tracker : Tracker} (h : tracker.status ≠ .started)
    (verdict : Verdict) :
    tracker.report verdict = { transfer := tracker, accepted := some false } := by
  simp [report, h]

theorem status_report_of_started {tracker : Tracker} (h : tracker.status = .started)
    (verdict : Verdict) : (tracker.report verdict).transfer.status = endOf verdict := by
  simp [report, h]

theorem info_report (tracker : Tracker) (verdict : Verdict) :
    (tracker.report verdict).transfer.info = tracker.info := by
  unfold report
  split <;> rfl

theorem source_report (tracker : Tracker) (verdict : Verdict) :
    (tracker.report verdict).transfer.source = tracker.source := by
  unfold report
  split <;> rfl

theorem status_report_ne_started (tracker : Tracker) (verdict : Verdict) :
    (tracker.report verdict).transfer.status ≠ .started := by
  by_cases h : tracker.status = .started
  · rw [status_report_of_started h]
    cases verdict <;> simp [endOf]
  · rw [report_of_ne_started h]
    exact h

end Tracker

end LakeUpload
