import LakeUpload.Log.Session
import LakeUpload.Proofs.Log.Calls

/-!
# What a session logs

A call meets the logger as it was last configured. If it is below the level, nothing comes of it at
all; otherwise the listener that was set last hears it once, as it was made, and the output grows by
its line. No line
of a structured logger can be taken for another one or for two, so that the output of such calls
cuts into their lines again, one for each and in their order.
-/

namespace LakeUpload

open Bytes (ascii newline)
open Json (Value)

theorem Bytes.split_lines {c : UInt8} {lines : List Bytes} (h : ∀ line ∈ lines, c ∉ line) :
    Bytes.split c (lines.flatMap fun line => line ++ [c]) = lines ++ [[]] := by
  induction lines with
  | nil =>
      rfl
  | cons line rest ih =>
      obtain ⟨hline, hrest⟩ := List.forall_mem_cons.1 h
      rw [List.flatMap_cons, List.append_assoc, List.singleton_append,
        Bytes.split_append hline, ih hrest]
      rfl

namespace Log

namespace Session

/-! ## What is in force -/

def Step.level? : Step → Option Level
  | .level threshold => some threshold
  | _ => none

def Step.structured? : Step → Option Bool
  | .format on => some on
  | _ => none

def Step.hide? : Step → Option Redaction.Config
  | .hide config => some config
  | _ => none

def Step.listener? : Step → Option (Option Listener)
  | .listen listener => some listener
  | _ => none

/-- What was set last, if anything was. -/
def lastSet {α : Type} (set? : Step → Option α) (default : α) (steps : List Step) : α :=
  (steps.filterMap set?).getLast?.getD default

theorem lastSet_cons {α : Type} (set? : Step → Option α) (default : α) (step : Step)
    (rest : List Step) :
    lastSet set? default (step :: rest) = lastSet set? ((set? step).getD default) rest := by
  cases hset : set? step with
  | none =>
      simp [lastSet, hset]
  | some value =>
      simp [lastSet, hset, List.getLast?_cons]

/-- The part of a logger that some steps set is what the last of them set. -/
theorem setting_run {α : Type} (get : Logger → α) (set? : Step → Option α)
    (hstep : ∀ logger step, get (reconfigure logger step) = (set? step).getD (get logger))
    (session : Session) (steps : List Step) :
    get (session.run steps).logger = lastSet set? (get session.logger) steps := by
  induction steps generalizing session with
  | nil =>
      rfl
  | cons step rest ih =>
      rw [lastSet_cons, ← hstep]
      exact ih (session.step step)

/-- What a call meets after some steps. -/
structure InForce (session : Session) (steps : List Step) (logger : Logger) : Prop where
  level : logger.level = lastSet Step.level? session.logger.level steps
  structured : logger.structured = lastSet Step.structured? session.logger.structured steps
  hide : logger.hide = lastSet Step.hide? session.logger.hide steps
  listener : logger.listener = lastSet Step.listener? session.logger.listener steps

theorem inForce_run (session : Session) (steps : List Step) :
    InForce session steps (session.run steps).logger := by
  constructor
  · refine setting_run Logger.level Step.level? (fun logger step => ?_) session steps
    cases step <;> rfl
  · refine setting_run Logger.structured Step.structured? (fun logger step => ?_) session steps
    cases step <;> rfl
  · refine setting_run Logger.hide Step.hide? (fun logger step => ?_) session steps
    cases step <;> rfl
  · refine setting_run Logger.listener Step.listener? (fun logger step => ?_) session steps
    cases step <;> rfl

/-! ## Single calls -/

section

variable (session : Session) {record : Record}

theorem step_log_of_lt (h : record.level.rank < session.logger.level.rank) :
    session.step (.log record) = session := by
  have hnot : session.logger.enabled record.level = false :=
    decide_eq_false (Int.not_le.2 h)
  have hemit : session.output ++ session.emit (.log record) = session.output := by
    rw [emit, Logger.log_of_not_enabled hnot, Output.append_empty]
  show { session with output := session.output ++ session.emit (.log record) } = session
  rw [hemit]

theorem output_step_log (h : session.logger.level.rank ≤ record.level.rank) :
    (session.step (.log record)).output = session.output ++
      { heard := session.logger.tell record
        written := session.logger.lineOf session.clock.calendar record ++ [newline] } := by
  have henabled : session.logger.enabled record.level = true := decide_eq_true h
  rw [step, emit, Logger.log, if_pos henabled]

end

/-- A structured logger writes a tame call on one line, from which it is read back. -/
theorem line_of_structured {logger : Logger} (h : logger.structured = true) {record : Record}
    (htame : record.Tame) (nanos : Int) :
    newline ∉ logger.lineOf nanos record ∧
      Json.read? (logger.lineOf nanos record) =
        some (.object (record.fields logger.hide nanos)) := by
  rw [Logger.lineOf, if_pos h]
  exact ⟨((clean_entry htame nanos).printed logger.hide).newline_not_mem,
    read_entry htame logger.hide nanos⟩

/-! ## All calls of a session -/

/-- A call that was let through, with the logger and the instant that it met. -/
structure Logged where
  record : Record
  logger : Logger
  nanos : Int

namespace Logged

def line (call : Logged) : Bytes := call.logger.lineOf call.nanos call.record

def fields (call : Logged) : List (Bytes × Value) :=
  call.record.fields call.logger.hide call.nanos

end Logged

def letThrough (session : Session) : Step → List Logged
  | .log record =>
      if session.logger.level.rank ≤ record.level.rank then
        [{ record, logger := session.logger, nanos := session.clock.calendar }]
      else []
  | _ => []

def logged (session : Session) : List Step → List Logged
  | [] => []
  | step :: rest => session.letThrough step ++ logged (session.step step) rest

theorem written_step (session : Session) (step : Step) :
    (session.step step).output.written = session.output.written ++
      (session.letThrough step).flatMap fun call => call.line ++ [newline] := by
  cases step with
  | log record =>
      by_cases hrank : session.logger.level.rank ≤ record.level.rank
      · simp [output_step_log session hrank, letThrough, hrank, Logged.line, Output.written_append]
      · simp [step_log_of_lt session (Int.not_le.1 hrank), letThrough, hrank]
  | start | shutdown | level | format | hide | listen | advance =>
      simp [Session.step, emit, letThrough, Output.append_empty]

theorem written_run (session : Session) (steps : List Step) :
    (session.run steps).output.written = session.output.written ++
      (session.logged steps).flatMap fun call => call.line ++ [newline] := by
  induction steps generalizing session with
  | nil =>
      simp [run, logged]
  | cons step rest ih =>
      refine (ih (session.step step)).trans ?_
      rw [written_step, logged, List.flatMap_append, List.append_assoc]

theorem mem_of_mem_logged {session : Session} {steps : List Step} {call : Logged}
    (h : call ∈ session.logged steps) : .log call.record ∈ steps := by
  induction steps generalizing session with
  | nil =>
      cases h
  | cons step rest ih =>
      rcases List.mem_append.1 h with hfirst | hrest
      · cases step with
        | log record =>
            simp only [letThrough] at hfirst
            split at hfirst
            · rw [List.mem_singleton.1 hfirst]
              exact List.mem_cons_self
            · cases hfirst
        | start | shutdown | level | format | hide | listen | advance =>
            cases hfirst
      · exact List.mem_cons_of_mem step (ih hrest)

/-! ## Starts and shutdowns -/

def Step.isStartOrShutdown : Step → Bool
  | .start | .shutdown => true
  | _ => false

/-- The session as if its logger had not been started. -/
def unstarted (session : Session) : Session :=
  { session with logger := { session.logger with started := false } }

theorem unstarted_step {first second : Session} (h : first.unstarted = second.unstarted)
    (step : Step) : (first.step step).unstarted = (second.step step).unstarted := by
  obtain ⟨⟨level, structured, hide, listener, started⟩, clock, output⟩ := first
  obtain ⟨⟨level', structured', hide', listener', started'⟩, clock', output'⟩ := second
  cases h
  cases step <;> rfl

theorem unstarted_startOrShutdown {session : Session} {step : Step}
    (h : step.isStartOrShutdown = true) : (session.step step).unstarted = session.unstarted := by
  have hkept : session.output ++ {} = session.output := Output.append_empty _
  cases step with
  | start | shutdown =>
      simp [unstarted, Session.step, reconfigure, tick, emit, hkept]
  | log | level | format | hide | listen | advance =>
      cases h

theorem unstarted_run_filter {first second : Session} (h : first.unstarted = second.unstarted)
    (steps : List Step) :
    (first.run (steps.filter fun step => !step.isStartOrShutdown)).unstarted =
      (second.run steps).unstarted := by
  induction steps generalizing first second with
  | nil =>
      exact h
  | cons step rest ih =>
      cases hstep : step.isStartOrShutdown with
      | true =>
          rw [List.filter_cons_of_neg (by simp [hstep])]
          exact ih (h.trans (unstarted_startOrShutdown hstep).symm)
      | false =>
          rw [List.filter_cons_of_pos (by simp [hstep])]
          exact ih (unstarted_step h step)

/-! ## Sessions -/

/-- What comes of a call. -/
structure LogsCall (before : Session) (record : Record) : Prop where
  dropped : record.level.rank < before.logger.level.rank → before.step (.log record) = before
  /-- The listener in force is called once with all but the place, and nobody else is. -/
  heard : before.logger.level.rank ≤ record.level.rank →
    (before.step (.log record)).output.heard =
      before.output.heard ++
        match before.logger.listener with
        | none => []
        | some listener =>
            [{ listener
               level := record.level
               category := record.category
               message := record.message
               details := record.details }]
  line : before.logger.level.rank ≤ record.level.rank → before.logger.structured = true →
    ∃ line, (before.step (.log record)).output.written =
        before.output.written ++ (line ++ [newline]) ∧
      newline ∉ line ∧
      Json.read? line = some (.object (record.fields before.logger.hide before.clock.calendar))

/-- What a session logs from where it stands. -/
structure LogsFaithfully (session : Session) (steps : List Step) : Prop where
  inForce : ∀ first later, steps = first ++ later →
    InForce session first (session.run first).logger
  call : ∀ first record later, steps = first ++ .log record :: later →
    LogsCall (session.run first) record
  silent : ∀ first step later, steps = first ++ step :: later →
    (∀ record, step ≠ .log record) →
      ((session.run first).step step).output = (session.run first).output
  /-- The calls of a structured logger make one line each, in their order. -/
  lines : (∀ call ∈ session.logged steps, call.logger.structured = true) →
    ∃ lines, (session.run steps).output.written =
        session.output.written ++ (lines.flatMap fun line => line ++ [newline]) ∧
      Bytes.split newline (lines.flatMap fun line => line ++ [newline]) = lines ++ [[]] ∧
      lines.map Json.read? =
        (session.logged steps).map fun call => some (.object call.fields)
  unmoved : (session.run (steps.filter fun step => !step.isStartOrShutdown)).output =
    (session.run steps).output

theorem logsCall_of_tame (before : Session) {record : Record} (htame : record.Tame) :
    LogsCall before record := by
  constructor
  · exact step_log_of_lt before
  · intro hrank
    rw [output_step_log before hrank, Output.heard_append, Logger.tell]
    cases before.logger.listener <;> rfl
  · intro hrank hstructured
    refine ⟨_, ?_, line_of_structured hstructured htame before.clock.calendar⟩
    rw [output_step_log before hrank, Output.written_append]

theorem output_step_of_ne_log (session : Session) {step : Step}
    (h : ∀ record, step ≠ .log record) : (session.step step).output = session.output := by
  cases step with
  | log record =>
      exact absurd rfl (h record)
  | start | shutdown | level | format | hide | listen | advance =>
      exact Output.append_empty session.output

/-- A message that tries to put a second entry into the log. -/
def forgedRecord : Record where
  level := .warn
  category := Category.source.text
  message := ascii "no file\"\x7d\n\x7b\"level\": \"INFO"

def lastRecord : Record where
  level := .fatal
  category := Category.sender.text
  message := []
  details := some { stage := some [newline] }
  file := some (ascii "a \"b\".cpp")
  line := 7
  function := some (ascii "main")

/-- The second listener takes the place of the first one. -/
def smallSteps : List Step :=
  [.start, .format true, .listen (some ⟨0⟩), .log forgedRecord, .listen (some ⟨1⟩), .shutdown,
    .level .error, .log forgedRecord, .advance 7, .log lastRecord]

example : (Session.run {} smallSteps).output.heard.map (·.listener.id) = [0, 1] ∧
    (Bytes.split newline (Session.run {} smallSteps).output.written).length = 3 := by
  decide +kernel

end Session

end Log

end LakeUpload
