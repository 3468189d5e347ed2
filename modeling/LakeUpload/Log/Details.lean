import LakeUpload.Json.Writer
import LakeUpload.Redaction.Masker

/-!
# Details of a transfer

What a message says about the transfer that it belongs to. Empty texts and absent values have no
member in the written object. The source is hidden as a path, the destination as a URL and the
error message as a message; the stage is a fixed label and stays as it is.
-/

namespace LakeUpload

open Bytes (ascii)

namespace Log

structure Details where
  transferId : Bytes := []
  source : Bytes := []
  destination : Bytes := []
  sourceSize : Option UInt64 := none
  chunkSize : Option UInt32 := none
  chunkCount : Option UInt64 := none
  stage : Option Bytes := none
  errorMessage : Option Bytes := none
  deriving DecidableEq, Repr

namespace Details

/-- A text that is present if it is not empty. -/
def filled (s : Bytes) : Option Bytes := if s = [] then none else some s

def members (hide : Redaction.Config) (d : Details) : List Bytes :=
  ((filled d.transferId).map (Json.textMember (ascii "transfer_id"))).toList ++
  ((filled d.source).map fun s =>
    Json.textMember (ascii "source") (Redaction.hidePath hide s)).toList ++
  ((filled d.destination).map fun s =>
    Json.textMember (ascii "destination") (Redaction.hideUrl hide s)).toList ++
  (d.sourceSize.map fun n => Json.numberMember (ascii "source_size") n.toNat).toList ++
  (d.chunkSize.map fun n => Json.numberMember (ascii "chunk_size") n.toNat).toList ++
  (d.chunkCount.map fun n => Json.numberMember (ascii "num_chunks") n.toNat).toList ++
  (d.stage.map (Json.textMember (ascii "stage"))).toList ++
  (d.errorMessage.map fun s =>
    Json.textMember (ascii "error_message") (Redaction.hideMessage hide s)).toList

def toJson (hide : Redaction.Config) (d : Details) : Bytes := Json.object (d.members hide)

end Details

end Log

end LakeUpload
