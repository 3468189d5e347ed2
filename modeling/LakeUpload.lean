import LakeUpload.Context.Registry
import LakeUpload.Json.Reader
import LakeUpload.Log.Session
import LakeUpload.Main
import LakeUpload.Pacer.Session
import LakeUpload.Sender.Pace
import LakeUpload.Transfer.Manual
import LakeUpload.Proofs.Lifecycle.LakeEffect
import LakeUpload.Proofs.Destination.RoundTrip
import LakeUpload.Proofs.Destination.Grammar
import LakeUpload.Proofs.Destination.Identity
import LakeUpload.Proofs.Chunks.Tiling
import LakeUpload.Proofs.Lifecycle.FirstReport
import LakeUpload.Proofs.Lifecycle.Progress
import LakeUpload.Proofs.Context.Provenance
import LakeUpload.Proofs.Json.Objects
import LakeUpload.Proofs.Log.Entries
import LakeUpload.Proofs.Redaction.Redacted
import LakeUpload.Proofs.Destination.Signed
import LakeUpload.Proofs.Lifecycle.TwoRuns
import LakeUpload.Proofs.Lifecycle.Secrecy
import LakeUpload.Proofs.Lifecycle.Prologue
import LakeUpload.Proofs.Lifecycle.Threshold
import LakeUpload.Proofs.Pacer.Requests
import LakeUpload.Proofs.Json.Printed
import LakeUpload.Proofs.Log.Calls
import LakeUpload.Proofs.Log.Sessions
import LakeUpload.Proofs.Lifecycle.Creation
import LakeUpload.Proofs.Log.Blind
import LakeUpload.Proofs.Destination.Parameters
import LakeUpload.Proofs.Redaction.Messages
import LakeUpload.Proofs.Context.Deadlines
import LakeUpload.Proofs.Lifecycle.Timeouts
import LakeUpload.Proofs.Chunks.Resized
import LakeUpload.Proofs.Destination.Respelling
import LakeUpload.Proofs.Pacer.Coupling
import LakeUpload.Proofs.Source.Extensions
import LakeUpload.Proofs.Json.StringGrammar
import LakeUpload.Proofs.Time.Stamps
