import LakeUpload.Destination.Url
import LakeUpload.Remote.Properties
import LakeUpload.Transfer.Basic

/-!
# Remote services

A service answers three kinds of request, each of which comes with a context that the service may
look at. While it works on one, time may pass and the transfer may be told something; `Reaction`
holds all of that besides the answer, and the service's own state afterwards. `Call` is what a
trace keeps of a request that was sent.
-/

namespace LakeUpload

inductive Request where
  | create (url : Url) (kind : Entity) (headers : Headers) (length : UInt64)
  | remove (url : Url) (kind : Entity)
  | properties (url : Url)
  deriving DecidableEq, Repr

namespace Request

def url : Request → Url
  | create url _ _ _ => url
  | remove url _ => url
  | properties url => url

end Request

/-- The context that a request comes with, and the flags and the instant it comes at. -/
structure Arrival where
  context : CallContext
  flags : Flags
  time : Int
  deriving DecidableEq, Repr

/-- A request that reached the service. -/
structure Call extends Arrival where
  request : Request
  deriving DecidableEq, Repr

namespace Call

def isCancelled (call : Call) : Bool := call.context.isCancelled call.flags

end Call

/-- What happens while a service works, or between two calls of an upload. -/
inductive Incident where
  | pass (nanos : Int)
  | report (verdict : Verdict)
  /-- The transfer is given a message to log. -/
  | say (level : Log.Level) (message : Bytes)
  deriving DecidableEq, Repr

structure Reaction (σ α : Type) where
  state : σ
  incidents : List Incident := []
  answer : Except Fault α

structure Service (σ : Type) where
  create : σ → Arrival → Url → Entity → Headers → UInt64 → Reaction σ Unit
  remove : σ → Arrival → Url → Entity → Reaction σ Unit
  properties : σ → Arrival → Url → Reaction σ Properties

end LakeUpload
