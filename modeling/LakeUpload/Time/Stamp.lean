import LakeUpload.Text.Decimal
import LakeUpload.Time.Calendar

/-!
# Time stamps

A stamp shows an instant to the millisecond in Coordinated Universal Time. Seconds and
milliseconds are both cut off toward zero, so before 1970 the milliseconds carry the sign.
-/

namespace LakeUpload

open Bytes (ascii decimalInt padded)

namespace Stamp

/-- Whole seconds of an instant in nanoseconds. -/
def seconds (nanos : Int) : Int := nanos.tdiv 1000000000

/-- Milliseconds beyond the whole seconds. -/
def millis (nanos : Int) : Int := (nanos.tdiv 1000000).tmod 1000

def dateText (secs : Int) : Bytes :=
  let date := Date.ofDays (secs / 86400)
  padded 4 date.year ++ ascii "-" ++ padded 2 date.month ++ ascii "-" ++ padded 2 date.day

def timeText (secs : Int) : Bytes :=
  let inDay := secs % 86400
  padded 2 (inDay / 3600) ++ ascii ":" ++ padded 2 (inDay / 60 % 60) ++ ascii ":" ++
    padded 2 (inDay % 60)

/-- The stamp of text lines, such as 2023-11-14 22:13:20.123. -/
def plain (nanos : Int) : Bytes :=
  dateText (seconds nanos) ++ ascii " " ++ timeText (seconds nanos) ++ ascii "." ++
    padded 3 (millis nanos)

/-- The stamp of structured entries, such as 2023-11-14T22:13:20.123Z. -/
def zulu (nanos : Int) : Bytes :=
  dateText (seconds nanos) ++ ascii "T" ++ timeText (seconds nanos) ++ ascii "." ++
    padded 3 (millis nanos) ++ ascii "Z"

end Stamp

end LakeUpload
