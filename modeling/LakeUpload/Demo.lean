import LakeUpload.Remote.DataLake
import LakeUpload.Sender.Run
import LakeUpload.Transfer.Tracker

/-!
# A demonstration

One file is uploaded to a lake in memory, or the upload is cancelled and its destination deleted
again. `Demo.run` is the whole program; what it prints is part of its result.
-/

namespace LakeUpload

open Bytes (ascii decimal newline)

namespace Demo

/-- What a program leaves behind. -/
structure Result where
  exit : Nat
  stdout : Bytes := []
  stderr : Bytes := []
  deriving DecidableEq, Repr

def usage : Bytes := ascii "Usage: datalake_upload_example <file> [--cancel]\n"

def line (s : Bytes) : Bytes := s ++ [newline]

def yesNo (found : Except Fault Bool) : Bytes :=
  match found with
  | .ok true => ascii "yes"
  | _ => ascii "no"

/-- The root of all uploads. -/
def uploads : Bytes := ascii "https://example.dfs.core.windows.net/fs/uploads/"

def info (path : Bytes) (size : UInt64) : Info :=
  { transferId := ascii "example-1"
    source := path
    destination := uploads ++ LocalFile.fileName path
    sourceSize := size
    blockSize := 4194304 }

/-- The logger of the program shows everything from debug on. -/
def logger (hide : Redaction.Config) : Log.Logger := { level := .debug, hide, started := true }

def setting (clock : Clock) (hide : Redaction.Config) (transfer : Tracker) :
    Setting Tracker DataLake :=
  { clock, logger := logger hide, transfer, service := {} }

def flushLine (sender : Sender) : Bytes :=
  match sender.flushThreshold with
  | .ok bytes => line (ascii "Flush every " ++ decimal bytes.toNat ++ ascii " bytes")
  | .error _ => []

/-- The upload itself, once there is a sender. -/
def upload (cancel : Bool) (sender : Sender) (s : Setting Tracker DataLake) : Result :=
  let heading := line (ascii "Destination: " ++ sender.target.toText) ++
    line (ascii "Chunks:      " ++ decimal sender.plan.count.toNat ++ ascii " x " ++
      decimal sender.plan.chunkSize.toNat ++ ascii " bytes")
  let (outcome, sender, s) := sender.prologue DataLake.service s
  let (flush, s) := match outcome.fault with
    | none => (flushLine sender, s)
    | some fault =>
        ([], s.print (line (ascii "Prologue failed: " ++ fault.message)))
  let (created, s) := sender.destinationExists DataLake.service s
  let s := if cancel then s.report .cancelled
    else if outcome.fault.isNone then s.report .succeeded
    else s
  let (sender, s) := sender.cleanup DataLake.service s
  let (remains, s) := sender.destinationExists DataLake.service s
  { exit := 0
    stdout := heading ++ flush ++ line (ascii "Created:     " ++ yesNo created) ++
      line (ascii "State:       " ++ (sender.state (Transfer.status s.transfer)).name) ++
      line (ascii "Remains:     " ++ yesNo remains)
    stderr := s.output.written }

def failed (s : Setting Tracker DataLake) (fault : Fault) : Result :=
  { exit := 1, stderr := s.output.written ++ line (ascii "Error: " ++ fault.message) }

/-- The program on its arguments, which end at their first zero byte. -/
def run (tree : FileTree) (clock : Clock) (hide : Redaction.Config) (args : List Bytes) : Result :=
  match args.map Bytes.untilZero with
  | [] => { exit := 1, stderr := usage }
  | path :: options =>
      let source := LocalFile.source tree path
      let blank := (setting clock hide (Tracker.start (info path 0) .info)).writeAll source.messages
      match source.answer with
      | .error fault => failed blank fault
      | .ok properties =>
          let s := { blank with
            transfer := Tracker.start (info path (properties.size.getD 0)) .info }
          let cancel := options.head? == some (ascii "--cancel")
          match Sender.create { source } s with
          | (.error fault, s) => failed s fault
          | (.ok sender, s) => upload cancel sender s

end Demo

end LakeUpload
