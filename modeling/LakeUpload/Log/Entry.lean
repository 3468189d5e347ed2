import LakeUpload.Log.Details
import LakeUpload.Log.Level
import LakeUpload.Time.Stamp

/-!
# Structured entries

A message with its time, level, category and whatever is known of the transfer and of the place
in the program. Time, category and function are written as they are, without escapes.
-/

namespace LakeUpload

open Bytes (ascii)

namespace Log

/-- A place in a program, as far as it is known. -/
structure Location where
  file : Option Bytes := none
  line : Option Int := none
  function : Option Bytes := none
  deriving DecidableEq, Repr

namespace Location

/-- Only a place with a file is written. -/
def members (location : Location) : List Bytes :=
  match location.file with
  | none => []
  | some file =>
      [Json.member (ascii "source_location") (Json.object (
        [Json.textMember (ascii "file") file] ++
        (location.line.map (Json.numberMember (ascii "line"))).toList ++
        (location.function.map fun name =>
          Json.member (ascii "function") (Json.quoted name)).toList))]

/-- The place as far as it was known, and in what is known now: a file and a function where they
are given, up to their first zero byte, and a line where it is positive. -/
def refine (location : Location) (file : Option Bytes) (line : Int) (function : Option Bytes) :
    Location :=
  { file := (file.map Bytes.untilZero).or location.file
    line := if 0 < line then some line else location.line
    function := (function.map Bytes.untilZero).or location.function }

end Location

structure Entry where
  timestamp : Bytes := []
  level : Level := .info
  category : Bytes := []
  message : Bytes := []
  details : Option Details := none
  location : Location := {}
  deriving DecidableEq, Repr

namespace Entry

/-- An empty entry with the stamp of an instant. -/
def stamped (nanos : Int) : Entry := { timestamp := Stamp.zulu nanos }

/-- Sets the destination, in details that are added if there are none. -/
def withDestination (entry : Entry) (destination : Bytes) : Entry :=
  { entry with details := some { entry.details.getD {} with destination } }

def withLocation (entry : Entry) (file : Option Bytes) (line : Int) (function : Option Bytes) :
    Entry :=
  { entry with location := entry.location.refine file line function }

def members (hide : Redaction.Config) (entry : Entry) : List Bytes :=
  [Json.member (ascii "timestamp") (Json.quoted entry.timestamp),
    Json.member (ascii "level") (Json.quoted entry.level.name),
    Json.member (ascii "category") (Json.quoted entry.category),
    Json.textMember (ascii "message") (Redaction.hideMessage hide entry.message)] ++
  (entry.details.map (Details.members hide)).getD [] ++
  entry.location.members

def toJson (hide : Redaction.Config) (entry : Entry) : Bytes := Json.object (entry.members hide)

end Entry

end Log

end LakeUpload
