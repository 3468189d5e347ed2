import LakeUpload.Proofs.Log.Lines

/-!
# Lines that tell nothing of signatures

Whoever reads the output of a logger that hides signatures cannot tell two calls apart that differ
in the values behind keys only, in whatever texts of the call the keys stand. This holds whether
paths are hidden as well or not, although values may look like parts of a path: they are gone
before paths are looked for.
-/

namespace LakeUpload

open Bytes (ascii)

namespace Log

/-- Details that differ in values only, in the texts that are shown as a URL or as a message. -/
structure Details.SameButValues (d d' : Details) : Prop where
  others : { d with destination := d'.destination, errorMessage := d'.errorMessage } = d'
  destination : Signature.SameButValues d.destination d'.destination
  errorMessage : Option.Rel Signature.SameButValues d.errorMessage d'.errorMessage

/-- Calls that differ in values only. -/
structure Record.SameButValues (r r' : Record) : Prop where
  others : { r with message := r'.message, details := r'.details } = r'
  message : Signature.SameButValues r.message r'.message
  details : Option.Rel Details.SameButValues r.details r'.details

variable {hide : Redaction.Config}

theorem Details.SameButValues.masked_eq {d d' : Details} (h : d.SameButValues d')
    (hsignatures : hide.signatures = true) : d.masked hide = d'.masked hide := by
  have hdestination := Redaction.hideUrl_eq_of_sameButValues hsignatures h.destination
  have herror : d.errorMessage.map (Redaction.hideMessage hide) =
      d'.errorMessage.map (Redaction.hideMessage hide) :=
    map_eq_of_rel h.errorMessage fun _ _ =>
      Redaction.hideMessage_eq_of_sameButValues hsignatures
  rw [← h.others]
  simp only [Details.masked, hdestination, herror]

theorem Record.SameButValues.masked_eq {r r' : Record} (h : r.SameButValues r')
    (hsignatures : hide.signatures = true) : r.masked hide = r'.masked hide := by
  have hmessage := Redaction.hideMessage_eq_of_sameButValues hsignatures h.message
  have hdetails : r.details.map (Details.masked hide) = r'.details.map (Details.masked hide) :=
    map_eq_of_rel h.details fun _ _ hsame => hsame.masked_eq hsignatures
  rw [← h.others]
  simp only [Record.masked, hmessage, hdetails]

theorem Record.SameButValues.level_eq {r r' : Record} (h : r.SameButValues r') :
    r.level = r'.level := by
  rw [← h.others]

/-- Calls that differ in values only are written the same, or neither is written. -/
theorem Logger.written_eq_of_sameButValues {logger : Logger}
    (hsignatures : logger.hide.signatures = true) {r r' : Record} (h : r.SameButValues r')
    (nanos : Int) : (logger.log nanos r).written = (logger.log nanos r').written := by
  have hline := lineOf_eq_of_masked (h.masked_eq hsignatures) nanos
  simp only [log, h.level_eq, hline]
  split <;> rfl

/-! ## A value that looks like a path and like a key -/

def signedRecord (value : Bytes) : Record where
  level := .error
  category := Category.prologue.text
  message := ascii "GET /lake/fs?sv=1" ++ (ascii "&Sig=" ++ (value ++ ascii " of /home/u/a.csv"))
  details := some
    { source := ascii "/home/u/a.csv"
      destination := ascii "https://lake/fs" ++ (ascii "?SIG=" ++ (value ++ ascii "&se=2"))
      errorMessage := some (ascii "\"u\": \"/fs" ++ (ascii "?sig=" ++ (value ++ ascii "\""))) }

theorem signedRecord_sameButValues {value value' : Bytes} (h : Signature.IsValue value)
    (h' : Signature.IsValue value') : (signedRecord value).SameButValues (signedRecord value') where
  others := rfl
  message := .append_left _ (.value (by decide) h h' (.refl _))
  details := .some
    { others := rfl
      destination := .append_left _ (.value (by decide) h h' (.refl _))
      errorMessage := .some (.append_left _ (.value (by decide) h h' (.refl _))) }

def structuredLogger : Logger := { structured := true, hide := .all }

theorem signedRecords_written_alike :
    structuredLogger.hide.signatures = true ∧
      (signedRecord (ascii "/c/d?sig=e#f")).SameButValues (signedRecord (ascii "?x")) ∧
      signedRecord (ascii "/c/d?sig=e#f") ≠ signedRecord (ascii "?x") ∧
      (structuredLogger.log 0 (signedRecord (ascii "/c/d?sig=e#f"))).written =
        (structuredLogger.log 0 (signedRecord (ascii "?x"))).written :=
  have hsame : (signedRecord (ascii "/c/d?sig=e#f")).SameButValues (signedRecord (ascii "?x")) :=
    signedRecord_sameButValues (by decide) (by decide)
  ⟨rfl, hsame, by decide, Logger.written_eq_of_sameButValues rfl hsame 0⟩

end Log

end LakeUpload
