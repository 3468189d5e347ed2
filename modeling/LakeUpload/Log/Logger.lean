import LakeUpload.Log.Entry

/-!
# Loggers

A logger drops what is below its level. The rest goes to the listener as it is, and masked to the
output: as a structured entry on a line of its own, or as a line of text. What an upload itself has
to say is a `Message`; most of them are logged with the place in the program that they come from.
-/

namespace LakeUpload

open Bytes (ascii newline)

namespace Log

/-- One call to a logger. -/
structure Record where
  level : Level
  category : Bytes
  message : Bytes
  details : Option Details := none
  file : Option Bytes := none
  line : Int := 0
  function : Option Bytes := none
  deriving DecidableEq, Repr

/-- The places of an upload that log with their location. -/
inductive Site where
  | sourceFound
  | destinationRefused
  | destinationResolved
  | planRefused
  | sourceRefused
  | senderCreated
  | creating
  | deleted
  | failed
  | cancelled
  | succeeded
  deriving DecidableEq, Repr

/-- What an upload has to say, and the place that says it, if it is logged. -/
structure Message where
  level : Level
  category : Category
  text : Bytes
  details : Option Details := none
  site : Option Site := none
  deriving DecidableEq, Repr

/-- The call that a message makes; where the places are is settled when the program is built. -/
def Message.record (places : Site → Location) (message : Message) : Record :=
  let place := (message.site.map places).getD {}
  { level := message.level
    category := message.category.text
    message := message.text
    details := message.details
    file := place.file
    line := place.line.getD 0
    function := place.function }

/-- Somebody whom a logger can call back. -/
structure Listener where
  id : Nat
  deriving DecidableEq, Repr

/-- What a listener gets of a call, which is all but the place. -/
structure Heard where
  listener : Listener
  level : Level
  category : Bytes
  message : Bytes
  details : Option Details
  deriving DecidableEq, Repr

/-- What a logger has given out: calls to its listeners, and bytes to its output. -/
structure Output where
  heard : List Heard := []
  written : Bytes := []
  deriving DecidableEq, Repr

namespace Output

def append (first second : Output) : Output :=
  { heard := first.heard ++ second.heard, written := first.written ++ second.written }

instance : Append Output := ⟨append⟩

theorem heard_append (first second : Output) :
    (first ++ second).heard = first.heard ++ second.heard := rfl

theorem written_append (first second : Output) :
    (first ++ second).written = first.written ++ second.written := rfl

theorem append_empty (output : Output) : output ++ {} = output := by
  show Output.append output {} = output
  simp [append]

end Output

structure Logger where
  level : Level := .info
  /-- Structured entries instead of text. -/
  structured : Bool := false
  hide : Redaction.Config := {}
  listener : Option Listener := none
  started : Bool := false
  deriving DecidableEq, Repr

namespace Logger

def enabled (logger : Logger) (level : Level) : Bool := level.passes logger.level

def entry (nanos : Int) (record : Record) : Entry :=
  let plain := { Entry.stamped nanos with
    level := record.level
    category := record.category
    message := record.message
    details := record.details }
  if record.file.isSome || 0 < record.line || record.function.isSome then
    plain.withLocation record.file record.line record.function
  else plain

def textLine (hide : Redaction.Config) (nanos : Int) (record : Record) : Bytes :=
  Stamp.plain nanos ++ ascii " [" ++ record.level.name ++ ascii "] [" ++ record.category ++
    ascii "] " ++ Redaction.hideMessage hide record.message ++
    (match record.details with
    | none => []
    | some details => ascii " " ++ details.toJson hide)

/-- The line that a record makes, without its newline. -/
def lineOf (logger : Logger) (nanos : Int) (record : Record) : Bytes :=
  if logger.structured then (entry nanos record).toJson logger.hide
  else textLine logger.hide nanos record

/-- The listener is told the call as it was made. -/
def tell (logger : Logger) (record : Record) : List Heard :=
  logger.listener.toList.map fun listener =>
    { listener
      level := record.level
      category := record.category
      message := record.message
      details := record.details }

def log (logger : Logger) (nanos : Int) (record : Record) : Output :=
  if logger.enabled record.level then
    { heard := logger.tell record
      written := logger.lineOf nanos record ++ [newline] }
  else {}

theorem log_of_not_enabled {logger : Logger} {record : Record}
    (h : logger.enabled record.level = false) (nanos : Int) : logger.log nanos record = {} := by
  simp [log, h]

end Logger

end Log

end LakeUpload
