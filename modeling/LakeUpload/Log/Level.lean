import LakeUpload.Text.Bytes

/-!
# Severity

Levels are ordered by their rank. The six named levels come first; any other rank is a level too,
without a name of its own.
-/

namespace LakeUpload

open Bytes (ascii)

namespace Log

structure Level where
  rank : Int
  deriving DecidableEq, Repr

namespace Level

def trace : Level := ⟨0⟩
def debug : Level := ⟨1⟩
def info : Level := ⟨2⟩
def warn : Level := ⟨3⟩
def error : Level := ⟨4⟩
def fatal : Level := ⟨5⟩

def name (level : Level) : Bytes :=
  if level = trace then ascii "TRACE"
  else if level = debug then ascii "DEBUG"
  else if level = info then ascii "INFO"
  else if level = warn then ascii "WARN"
  else if level = error then ascii "ERROR"
  else if level = fatal then ascii "FATAL"
  else ascii "UNKNOWN"

/-- Whether a message of this level passes a threshold. -/
def passes (level threshold : Level) : Bool := threshold.rank ≤ level.rank

end Level

/-- The part of an upload that a message comes from. -/
inductive Category where
  | sender
  | prologue
  | cleanup
  | resolver
  | planner
  | tracker
  | source
  deriving DecidableEq, Repr

def Category.text : Category → Bytes
  | sender => ascii "hns_transfer.sender"
  | prologue => ascii "hns_transfer.prologue"
  | cleanup => ascii "hns_transfer.cleanup"
  | resolver => ascii "hns_transfer.resolver"
  | planner => ascii "hns_transfer.planner"
  | tracker => ascii "hns_transfer.tracker"
  | source => ascii "hns_transfer.source"

end Log

end LakeUpload
