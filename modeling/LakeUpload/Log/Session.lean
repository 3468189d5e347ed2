import LakeUpload.Log.Logger
import LakeUpload.Time.Clock

/-!
# Sessions of a logger

A session is a logger that is reconfigured and called over time, with all that it has given out.
Only calls give out anything, and starting or shutting down the logger changes nothing of that.
-/

namespace LakeUpload

namespace Log

structure Session where
  logger : Logger := {}
  clock : Clock := {}
  output : Output := {}
  deriving DecidableEq, Repr

namespace Session

inductive Step where
  | start
  | shutdown
  | level (level : Level)
  | format (structured : Bool)
  | hide (config : Redaction.Config)
  /-- A listener takes the place of the one before, or nobody does. -/
  | listen (listener : Option Listener)
  | advance (nanos : Int)
  | log (record : Record)
  deriving DecidableEq, Repr

/-- The logger after a step. -/
def reconfigure (logger : Logger) : Step → Logger
  | .start => { logger with started := true }
  | .shutdown => { logger with started := false }
  | .level level => { logger with level }
  | .format structured => { logger with structured }
  | .hide config => { logger with hide := config }
  | .listen listener => { logger with listener }
  | .advance _ => logger
  | .log _ => logger

/-- What a step gives out. -/
def emit (session : Session) : Step → Output
  | .log record => session.logger.log session.clock.calendar record
  | _ => {}

def tick (clock : Clock) : Step → Clock
  | .advance nanos => clock.advance nanos
  | _ => clock

def step (session : Session) (step : Step) : Session :=
  { logger := reconfigure session.logger step
    clock := tick session.clock step
    output := session.output ++ emit session step }

def run (session : Session) (steps : List Step) : Session := steps.foldl Session.step session

theorem run_append (session : Session) (first second : List Step) :
    session.run (first ++ second) = (session.run first).run second := by
  simp [run]

end Session

end Log

end LakeUpload
