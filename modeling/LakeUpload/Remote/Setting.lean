import LakeUpload.Remote.Service

/-!
# The setting of an upload

A setting holds what an upload can touch: the clock, the logger with its output, the transfer, and
the remote service with the trace of the calls that reached it. It also knows where in the program
the places are that log. Each change of one of them is a
function on settings.
-/

namespace LakeUpload

structure Setting (τ σ : Type) where
  clock : Clock
  logger : Log.Logger
  output : Log.Output := {}
  transfer : τ
  service : σ
  /-- The calls so far, in order. -/
  calls : List Call := []
  places : Log.Site → Log.Location := fun _ => {}

namespace Setting

variable {τ σ α : Type}

def write (s : Setting τ σ) (message : Log.Message) : Setting τ σ :=
  { s with output := s.output ++ s.logger.log s.clock.calendar (message.record s.places) }

def writeAll (s : Setting τ σ) (messages : List Log.Message) : Setting τ σ :=
  messages.foldl write s

/-- Puts bytes behind the output of the logger. -/
def print (s : Setting τ σ) (bytes : Bytes) : Setting τ σ :=
  { s with output := { s.output with written := s.output.written ++ bytes } }

def notify (s : Setting τ σ) : Notice → Setting τ σ
  | .log message => s.write message
  | .remark record => { s with output := s.output ++ { heard := s.logger.tell record } }

variable [Transfer τ]

/-- Reports to the transfer, and lets it say what it has to. -/
def report (s : Setting τ σ) (verdict : Verdict) : Setting τ σ :=
  let reply := Transfer.report s.transfer verdict
  reply.notices.foldl notify { s with transfer := reply.transfer }

/-- A message of the upload to its transfer. -/
def say (s : Setting τ σ) (level : Log.Level) (message : Bytes) : Setting τ σ :=
  (Transfer.say s.transfer level message).foldl notify s

def incur (s : Setting τ σ) : Incident → Setting τ σ
  | .pass nanos => { s with clock := s.clock.advance nanos }
  | .report verdict => s.report verdict
  | .say level message => s.say level message

/-- The context of the transfer. -/
def context (s : Setting τ σ) : CallContext := Transfer.context s.transfer

/-- What a request comes with that is sent now. -/
def arrival (s : Setting τ σ) (ctx : CallContext) : Arrival :=
  { context := ctx, flags := Transfer.flags s.transfer, time := s.clock.steady }

/-- The setting once the service has reacted to a request. -/
def received (s : Setting τ σ) (call : Call) (reaction : Reaction σ α) : Setting τ σ :=
  reaction.incidents.foldl incur
    { s with service := reaction.state, calls := s.calls ++ [call] }

/-- Sends a request under a context, if the context is not done. -/
def send (s : Setting τ σ) (ctx : CallContext) (request : Request)
    (react : σ → Arrival → Reaction σ α) : Except Fault α × Setting τ σ :=
  match ctx.check (Transfer.flags s.transfer) s.clock.steady with
  | .error fault => (.error fault, s)
  | .ok () =>
      let reaction := react s.service (s.arrival ctx)
      (reaction.answer, s.received { s.arrival ctx with request } reaction)

theorem send_of_check_error {s : Setting τ σ} {ctx : CallContext} {fault : Fault}
    (h : ctx.check (Transfer.flags s.transfer) s.clock.steady = .error fault) (request : Request)
    (react : σ → Arrival → Reaction σ α) : s.send ctx request react = (.error fault, s) := by
  simp [send, h]

theorem send_of_check_ok {s : Setting τ σ} {ctx : CallContext}
    (h : ctx.check (Transfer.flags s.transfer) s.clock.steady = .ok ()) (request : Request)
    (react : σ → Arrival → Reaction σ α) :
    s.send ctx request react =
      ((react s.service (s.arrival ctx)).answer,
        s.received { s.arrival ctx with request } (react s.service (s.arrival ctx))) := by
  simp [send, h]

end Setting

end LakeUpload
