import LakeUpload.Text.Bytes

/-!
# Faults

A fault is a numbered code with a message. Codes come in ranges of twenty: destination, chunk
planning, configuration, remote object, source, and the lifecycle of a transfer.
-/

namespace LakeUpload

open Bytes (ascii)

inductive Code where
  | success
  | malformedDestination
  | invalidChunkSize
  | invalidChunkIndex
  | invalidConfiguration
  | objectNotFound
  | objectAlreadyExists
  | remoteRequestFailed
  | accessDenied
  | unsupportedOperation
  | metadataFetchFailed
  | internalError
  | invalidState
  | operationCancelled
  | deadlineExceeded
  /-- A number that names no known cause. -/
  | other (number : Int)
  deriving DecidableEq, Repr

namespace Code

def toInt : Code → Int
  | success => 0
  | malformedDestination => -100
  | invalidChunkSize => -120
  | invalidChunkIndex => -121
  | invalidConfiguration => -140
  | objectNotFound => -160
  | objectAlreadyExists => -161
  | remoteRequestFailed => -162
  | accessDenied => -163
  | unsupportedOperation => -164
  | metadataFetchFailed => -180
  | internalError => -200
  | invalidState => -201
  | operationCancelled => -202
  | deadlineExceeded => -203
  | other number => number

def known : List Code :=
  [success, malformedDestination, invalidChunkSize, invalidChunkIndex, invalidConfiguration,
    objectNotFound, objectAlreadyExists, remoteRequestFailed, accessDenied, unsupportedOperation,
    metadataFetchFailed, internalError, invalidState, operationCancelled, deadlineExceeded]

/-- The known code with this number, if there is one. -/
def ofInt (number : Int) : Code :=
  (known.find? (·.toInt == number)).getD (other number)

theorem toInt_ofInt (number : Int) : (ofInt number).toInt = number := by
  unfold ofInt
  cases hfind : known.find? (·.toInt == number) with
  | none =>
      rfl
  | some code =>
      simpa using List.find?_some hfind

theorem ofInt_toInt_of_known {code : Code} (hcode : code ∈ known) :
    ofInt code.toInt = code := by
  revert code
  decide

/-- What the code stands for, in words. -/
def text : Code → Bytes
  | success => ascii "success"
  | malformedDestination => ascii "malformed destination"
  | invalidChunkSize => ascii "invalid chunk size"
  | invalidChunkIndex => ascii "invalid chunk index"
  | invalidConfiguration => ascii "invalid configuration"
  | objectNotFound => ascii "object not found"
  | objectAlreadyExists => ascii "object already exists"
  | remoteRequestFailed => ascii "remote request failed"
  | accessDenied => ascii "access denied"
  | unsupportedOperation => ascii "unsupported operation"
  | metadataFetchFailed => ascii "source metadata fetch failed"
  | internalError => ascii "internal error"
  | invalidState => ascii "invalid state"
  | operationCancelled => ascii "operation cancelled"
  | deadlineExceeded => ascii "deadline exceeded"
  | other _ => ascii "unknown error"

end Code

structure Fault where
  code : Code := .success
  message : Bytes := []
  deriving DecidableEq, Repr

namespace Fault

/-- A fault that says no more than its code does. -/
def ofCode (code : Code) : Fault := ⟨code, code.text⟩

/-- Whether the code is anything but success. -/
def isError (fault : Fault) : Bool := fault.code.toInt != 0

/-- The fault of a result, which is empty where the result is a value. -/
def ofResult {α : Type} : Except Fault α → Fault
  | .ok _ => {}
  | .error fault => fault

end Fault

end LakeUpload
