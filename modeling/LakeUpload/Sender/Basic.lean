import LakeUpload.ChunkPlan
import LakeUpload.Remote.Target
import LakeUpload.Sender.Config
import LakeUpload.Sender.State
import LakeUpload.Source.LocalFile

/-!
# Senders

A sender makes the destination before the chunks are sent, and deletes it again if the transfer
dies. `create` fixes target, plan and headers once and for all; `prologue` and `cleanup` do
something only at their first call.
-/

namespace LakeUpload

open Bytes (ascii)

structure Sender where
  target : Target
  plan : ChunkPlan
  /-- The headers that the destination is made with. -/
  headers : Headers
  config : Config
  phase : Phase := .constructed
  /-- Bytes between two flushes, zero until the prologue. -/
  threshold : UInt64 := 0
  deriving DecidableEq, Repr

/-- What a sender is made from; transfer and service may be missing. -/
structure Offer where
  source : Source
  config : Config := {}
  hasTransfer : Bool := true
  hasService : Bool := true

/-- What comes of a prologue. -/
structure Outcome where
  /-- Whether there may be something to clean up. -/
  modified : Bool
  fault : Option Fault
  deriving DecidableEq, Repr

namespace Sender

def details (sender : Sender) (info : Info) : Log.Details :=
  { transferId := info.transferId
    source := info.source
    destination := sender.target.toText
    sourceSize := some info.sourceSize
    chunkSize := some sender.plan.chunkSize
    chunkCount := some sender.plan.count }

def state (sender : Sender) (status : Status) : SenderState := .of sender.phase status

variable {τ σ : Type} [Transfer τ]

/-! ## Making a sender -/

def transferMissing : Fault :=
  ⟨.invalidConfiguration, ascii "transfer context must not be null"⟩

def sourceFailed (info : Info) (fault : Fault) : Fault :=
  ⟨.metadataFetchFailed,
    ascii "fetching source properties of " ++ info.source ++ ascii ": " ++ fault.message⟩

def planMessage (fault : Fault) : Log.Message :=
  { level := .warn, category := .planner, text := fault.message, site := some .planRefused }

def sourceMessage (fault : Fault) : Log.Message :=
  { level := .warn, category := .source, text := fault.message, site := some .sourceRefused }

def make (config : Config) (target : Target) (plan : ChunkPlan) (headers : Headers) : Sender :=
  { target, plan, headers, config }

def createdMessage (sender : Sender) (info : Info) : Log.Message :=
  { level := .debug
    category := .sender
    text := ascii "sender created"
    details := some (sender.details info)
    site := some .senderCreated }

/-- Asks the source, which is not asked before all else is in order. -/
def createFrom (offer : Offer) (target : Target) (plan : ChunkPlan) (s : Setting τ σ) :
    Except Fault Sender × Setting τ σ :=
  let info := Transfer.info s.transfer
  let asked := s.writeAll offer.source.messages
  match offer.source.answer with
  | .error fault =>
      let failed := sourceFailed info fault
      (.error failed, asked.write (sourceMessage failed))
  | .ok properties =>
      let sender := make offer.config target plan properties.headers
      (.ok sender, asked.write (sender.createdMessage info))

/-- A sender for the transfer of the setting, or the first thing that is wrong. -/
def create (offer : Offer) (s : Setting τ σ) : Except Fault Sender × Setting τ σ :=
  if offer.hasTransfer then
    match offer.config.validate with
    | .error fault => (.error fault, s)
    | .ok () =>
        let info := Transfer.info s.transfer
        let resolved := Target.resolve offer.hasService info.destination info.entity
        let told := s.writeAll resolved.2
        match resolved.1 with
        | .error fault => (.error fault, told)
        | .ok target =>
            match ChunkPlan.ofSource info.sourceSize info.blockSize with
            | .error fault =>
                (.error fault, told.write (planMessage fault))
            | .ok plan => createFrom offer target plan told
  else (.error transferMissing, s)

/-! ## The run of an upload -/

def creatingStage : Bytes := ascii "Creating file"

def prologueRan (sender : Sender) : Fault :=
  ⟨.invalidState, ascii "prologue already ran for " ++ sender.target.toText⟩

/-- The bytes of so many chunks as lie between two flushes. -/
def flushBytes (sender : Sender) : UInt64 :=
  sender.plan.chunkSize.toUInt64 * sender.config.flushMultiplier.toUInt64

/-- The message that goes before the request for the destination. -/
def announcement (sender : Sender) (info : Info) : Log.Message :=
  { level := .debug
    category := .prologue
    text := ascii "creating destination"
    details := some { sender.details info with stage := some creatingStage }
    site := some .creating }

/-- The sender once its prologue has begun. -/
def begun (sender : Sender) : Sender :=
  { sender with phase := .prologued, threshold := sender.flushBytes }

def prologue (service : Service σ) (sender : Sender) (s : Setting τ σ) :
    Outcome × Sender × Setting τ σ :=
  if sender.phase = .constructed then
    let info := Transfer.info s.transfer
    let told := s.write (sender.announcement info)
    let created := sender.target.create service told.context sender.headers info.sourceSize told
    match created.1 with
    | .ok () => ({ modified := true, fault := none }, sender.begun, created.2)
    | .error fault =>
        ({ modified := true, fault := some fault }, sender.begun,
          created.2.report (.failed creatingStage fault))
  else ({ modified := false, fault := some sender.prologueRan }, sender, s)

/-- The context of the delete, which does not hang on the transfer's. -/
def cleanupContext (sender : Sender) (now : Int) : CallContext :=
  CallContext.background.withTimeout now sender.config.cleanupNanos

def deleteFailed (sender : Sender) (fault : Fault) : Bytes :=
  ascii "error deleting the (incomplete) file " ++ sender.target.toText ++
    ascii ". Failed with error " ++ fault.message

def deletedMessage (sender : Sender) (info : Info) : Log.Message :=
  { level := .debug
    category := .cleanup
    text := ascii "deleted incomplete destination"
    details := some (sender.details info)
    site := some .deleted }

/-- The sender after its cleanup. -/
def cleaned (sender : Sender) : Sender := { sender with phase := .cleanedUp }

def cleanup (service : Service σ) (sender : Sender) (s : Setting τ σ) : Sender × Setting τ σ :=
  if sender.phase = .cleanedUp then (sender, s)
  else if Transfer.isDead s.transfer then
    let removed := sender.target.remove service (sender.cleanupContext s.clock.steady) s
    match removed.1 with
    | .error fault => (sender.cleaned, removed.2.say .error (sender.deleteFailed fault))
    | .ok () =>
        (sender.cleaned,
          removed.2.write (sender.deletedMessage (Transfer.info removed.2.transfer)))
  else (sender.cleaned, s)

/-! ## Questions -/

/-- What the sender can send. -/
def entityKind (sender : Sender) : Except Fault Entity := sender.target.entityKind

def thresholdUnknown : Fault :=
  ⟨.invalidState, ascii "flush threshold is not known before prologue"⟩

def flushThreshold (sender : Sender) : Except Fault UInt64 :=
  if sender.threshold = 0 then .error thresholdUnknown else .ok sender.threshold

/-- Whether the destination is there. -/
def destinationExists (service : Service σ) (sender : Sender) (s : Setting τ σ) :
    Except Fault Bool × Setting τ σ :=
  let found := sender.target.properties service s.context s
  match found.1 with
  | .ok _ => (.ok true, found.2)
  | .error fault =>
      if fault.code = .objectNotFound then (.ok false, found.2) else (.error fault, found.2)

def destinationLength (service : Service σ) (sender : Sender) (s : Setting τ σ) :
    Except Fault UInt64 × Setting τ σ :=
  let found := sender.target.properties service s.context s
  (found.1.map Properties.length, found.2)

theorem prologue_of_ne_constructed {sender : Sender} (h : sender.phase ≠ .constructed)
    (service : Service σ) (s : Setting τ σ) :
    sender.prologue service s =
      ({ modified := false, fault := some sender.prologueRan }, sender, s) := by
  simp [prologue, h]

theorem cleanup_of_cleanedUp {sender : Sender} (h : sender.phase = .cleanedUp)
    (service : Service σ) (s : Setting τ σ) : sender.cleanup service s = (sender, s) := by
  simp [cleanup, h]

end Sender

end LakeUpload
