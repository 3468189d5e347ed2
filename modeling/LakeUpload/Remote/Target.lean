import LakeUpload.Destination.Parser
import LakeUpload.Remote.Setting

/-!
# Targets

A target is a destination together with the kind of path that is to be made there. All requests of
an upload go through its target, which sends none under a context that is done.
-/

namespace LakeUpload

open Bytes (ascii)

inductive TargetKind where
  | file
  | folder
  deriving DecidableEq, Repr

namespace TargetKind

/-- Everything but a folder is sent as a file. -/
def ofEntity : Entity → TargetKind
  | .folder => folder
  | _ => file

def ofInt? (number : Int) : Option TargetKind :=
  if number = 0 then some file else if number = 1 then some folder else none

def name : TargetKind → Bytes
  | file => ascii "file"
  | folder => ascii "folder"

/-- The kind of path to ask the service for. -/
def entity : TargetKind → Entity
  | file => .file
  | folder => .folder

end TargetKind

structure Target where
  kind : TargetKind
  url : Url
  deriving DecidableEq, Repr

namespace Target

/-- The identity of the target. -/
def toText (target : Target) : Bytes := target.url.toText

def serviceMissing : Fault :=
  ⟨.invalidConfiguration, ascii "remote path service must not be null"⟩

def refusedMessage (fault : Fault) : Log.Message :=
  { level := .warn
    category := .resolver
    text := fault.message
    site := some .destinationRefused }

def resolvedMessage (target : Target) : Log.Message :=
  { level := .debug
    category := .resolver
    text := ascii "resolved " ++ target.kind.name ++ ascii " target " ++ target.url.toText
    site := some .destinationResolved }

/-- The target at a destination, and what is logged about it; it takes a service to send to. -/
def resolve (hasService : Bool) (destination : Bytes) (entity : Entity) :
    Except Fault Target × List Log.Message :=
  if hasService then
    match Url.parse destination with
    | .error fault => (.error fault, [refusedMessage fault])
    | .ok url =>
        let target := { kind := TargetKind.ofEntity entity, url }
        (.ok target, [target.resolvedMessage])
  else (.error serviceMissing, [])

/-- What can be sent to the target; folders cannot be sent. -/
def entityKind (target : Target) : Except Fault Entity :=
  match target.kind with
  | .file => .ok .file
  | .folder =>
      .error ⟨.unsupportedOperation,
        ascii "sending folders is not supported: " ++ target.toText⟩

variable {τ σ : Type} [Transfer τ] (service : Service σ)

def create (target : Target) (ctx : CallContext) (headers : Headers) (length : UInt64)
    (s : Setting τ σ) : Except Fault Unit × Setting τ σ :=
  s.send ctx (.create target.url target.kind.entity headers length) fun state arrival =>
    service.create state arrival target.url target.kind.entity headers length

def remove (target : Target) (ctx : CallContext) (s : Setting τ σ) :
    Except Fault Unit × Setting τ σ :=
  s.send ctx (.remove target.url target.kind.entity) fun state arrival =>
    service.remove state arrival target.url target.kind.entity

def properties (target : Target) (ctx : CallContext) (s : Setting τ σ) :
    Except Fault Properties × Setting τ σ :=
  s.send ctx (.properties target.url) fun state arrival =>
    service.properties state arrival target.url

end Target

end LakeUpload
