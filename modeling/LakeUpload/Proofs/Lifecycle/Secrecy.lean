import LakeUpload.Proofs.Lifecycle.TwoRuns
import LakeUpload.Remote.DataLake

/-!
# What a log gives away

A session is an upload from the start: senders are made, scripts are laid down for the lake, and
calls are made, in any order. Of two sessions that go through the same steps for transfers that
differ in signatures only, the logs are the same, as far as the sources are hidden the same. They
are not, wherever a source is shown: its signatures are part of a path to the logger.
-/

namespace LakeUpload

open Bytes (ascii question)

/-! ## The lake -/

namespace DataLake

/-- Lakes with the same scripts, and with the same entry under the two destinations. -/
structure SameAt (destination destination' : Bytes) (lake lake' : DataLake) : Prop where
  onCreate : lake.onCreate = lake'.onCreate
  onRemove : lake.onRemove = lake'.onRemove
  onProperties : lake.onProperties = lake'.onProperties
  entry : ∀ {url url'}, Url.parse destination = .ok url → Url.parse destination' = .ok url' →
    lake.get? url.toText = lake'.get? url'.toText

theorem alike_react {α : Type} {states : DataLake → DataLake → Prop} {lake lake' : DataLake}
    (hstate : states lake lake') {script script' : Script} (hscript : script = script')
    {work work' : Except Fault α × DataLake} (hanswer : Fault.AlikeAnswers Eq work.1 work'.1)
    (hwork : states work.2 work'.2) :
    (lake.react script work).Alike states (lake'.react script' work') := by
  subst hscript
  unfold react
  cases script.fault with
  | none =>
      exact ⟨hwork, rfl, hanswer⟩
  | some fault =>
      exact ⟨hstate, rfl, .error (.refl fault)⟩

theorem alike_notFound {url url' : Url} (h : url.Alike url') :
    (notFound url.toText).Alike (notFound url'.toText) :=
  ⟨rfl, h.toText⟩

section

variable {destination destination' : Bytes} {url url' : Url} {lake lake' : DataLake}

theorem SameAt.put (h : SameAt destination destination' lake lake')
    (hurl : Url.parse destination = .ok url) (hurl' : Url.parse destination' = .ok url')
    (properties : Properties) :
    SameAt destination destination' (lake.put url.toText properties)
      (lake'.put url'.toText properties) where
  onCreate := h.onCreate
  onRemove := h.onRemove
  onProperties := h.onProperties
  entry := by
    intro found found' hfound hfound'
    cases hurl.symm.trans hfound
    cases hurl'.symm.trans hfound'
    exact (lookup_insert_self _ _ _).trans (lookup_insert_self _ _ _).symm

theorem SameAt.drop (h : SameAt destination destination' lake lake')
    (hurl : Url.parse destination = .ok url) (hurl' : Url.parse destination' = .ok url') :
    SameAt destination destination' (lake.drop url.toText) (lake'.drop url'.toText) where
  onCreate := h.onCreate
  onRemove := h.onRemove
  onProperties := h.onProperties
  entry := by
    intro found found' hfound hfound'
    cases hurl.symm.trans hfound
    cases hurl'.symm.trans hfound'
    exact (lookup_erase_self _ _).trans (lookup_erase_self _ _).symm

theorem blindAt (hurl : Url.parse destination = .ok url) (hurl' : Url.parse destination' = .ok url')
    (halike : url.Alike url') :
    service.BlindAt (SameAt destination destination') url url' where
  create h _ _ _ _ := alike_react h h.onCreate (.ok rfl) (h.put hurl hurl' _)
  remove h _ _ := by
    simp only [service, h.entry hurl hurl']
    split
    · exact alike_react h h.onRemove (.error (alike_notFound halike)) h
    · exact alike_react h h.onRemove (.ok rfl) (h.drop hurl hurl')
  properties h _ := by
    simp only [service, h.entry hurl hurl']
    split
    · exact alike_react h h.onProperties (.error (alike_notFound halike)) h
    · exact alike_react h h.onProperties (.ok rfl) h

end

theorem blind {info info' : Info} (hinfo : info.Alike info')
    (hscheme : Url.SameScheme info.destination info'.destination) :
    service.Blind (SameAt info.destination info'.destination) info info' :=
  fun _ _ hurl hurl' => blindAt hurl hurl' (Url.alike_of_parse hinfo.destination hscheme hurl hurl')

end DataLake

/-! ## Sessions -/

namespace Upload

/-- An upload from the start, at first without a sender. -/
structure Session where
  sender : Option Sender := none
  setting : Setting Tracker DataLake

namespace Session

inductive Step where
  /-- A new sender takes the place of the one before, if it can be made. -/
  | create (offer : Offer)
  /-- The lake gets new scripts. -/
  | arm (create remove properties : Script)
  | incident (incident : Incident)
  /-- A step of the sender, if there is one. -/
  | call (step : Upload.Step)

def step (session : Session) : Step → Session
  | .create offer =>
      let made := Sender.create offer session.setting
      { sender := made.1.toOption.or session.sender, setting := made.2 }
  | .arm create remove properties =>
      { session with
        setting := { session.setting with
          service := { session.setting.service with
            onCreate := create
            onRemove := remove
            onProperties := properties } } }
  | .incident incident => { session with setting := session.setting.incur incident }
  | .call step =>
      match session.sender with
      | none => session
      | some sender =>
          let done := (Upload.step DataLake.service ⟨sender, session.setting⟩ step).2
          { sender := some done.sender, setting := done.setting }

def run (session : Session) (steps : List Step) : Session := steps.foldl Session.step session

/-- A session for a new tracker. -/
def start (places : Log.Site → Log.Location) (clock : Clock) (logger : Log.Logger)
    (minLevel : Log.Level) (lake : DataLake) (info : Info) : Session :=
  { setting :=
      { clock, logger, places, transfer := Tracker.start info minLevel, service := lake } }

/-- Sessions of the two runs. -/
structure Alike (logger : Log.Logger) (info info' : Info) (session session' : Session) :
    Prop where
  sender : Option.Rel (Sender.Alike info info') session.sender session'.sender
  setting : session.setting.Alike logger (DataLake.SameAt info.destination info'.destination)
    info info' session'.setting

variable {logger : Log.Logger} {info info' : Info} {session session' : Session}

theorem alike_start (places : Log.Site → Log.Location) (clock : Clock) (logger : Log.Logger)
    (minLevel : Log.Level) {lake : DataLake}
    (hlake : lake.SameAt info.destination info'.destination lake) :
    (start places clock logger minLevel lake info).Alike logger info info'
      (start places clock logger minLevel lake info') where
  sender := .none
  setting := ⟨rfl, rfl, rfl, rfl, .empty, ⟨rfl, rfl, rfl, rfl, rfl, rfl⟩, hlake⟩

section

variable (hinfo : info.Alike info')
  (hscheme : Url.SameScheme info.destination info'.destination)

include hinfo hscheme

theorem Alike.step (h : session.Alike logger info info' session') (step : Step) :
    (session.step step).Alike logger info info' (session'.step step) := by
  have hblind := DataLake.blind hinfo hscheme
  cases step with
  | create offer =>
      obtain ⟨hmade, hsetting⟩ := Sender.alike_create hinfo hscheme h.setting offer
      refine ⟨?_, hsetting⟩
      rcases hmade.ok_or_error with ⟨sender, sender', hok, hok', hsender⟩ |
        ⟨fault, fault', her, her', -⟩
      · simp only [Session.step, hok, hok']
        exact .some hsender
      · simp only [Session.step, her, her']
        exact h.sender
  | arm create remove properties =>
      have hlake := h.setting.service
      exact ⟨h.sender, { h.setting with service := ⟨rfl, rfl, rfl, hlake.entry⟩ }⟩
  | incident incident =>
      exact ⟨h.sender, h.setting.incur hinfo incident⟩
  | call step =>
      rcases Log.none_or_some_of_rel h.sender with ⟨hnone, hnone'⟩ |
        ⟨sender, sender', hsome, hsome', hsender⟩
      · simp only [Session.step, hnone, hnone']
        exact h
      · have hupload : Upload.Alike logger
            (DataLake.SameAt info.destination info'.destination) info info'
            ⟨sender, session.setting⟩ ⟨sender', session'.setting⟩ := ⟨hsender, h.setting⟩
        have hdone := hupload.step hinfo hscheme hblind step
        simp only [Session.step, hsome, hsome']
        exact ⟨.some hdone.sender, hdone.setting⟩

theorem Alike.run (h : session.Alike logger info info' session') (steps : List Step) :
    (session.run steps).Alike logger info info' (session'.run steps) := by
  induction steps generalizing session session' with
  | nil =>
      exact h
  | cons step rest ih =>
      exact ih (h.step hinfo hscheme step)

end

/-! ## What is written -/

/-- What comes of the logger in a session for a new tracker. -/
def outputOf (places : Log.Site → Log.Location) (clock : Clock) (logger : Log.Logger)
    (minLevel : Log.Level) (lake : DataLake) (steps : List Step) (info : Info) : Log.Output :=
  ((start places clock logger minLevel lake info).run steps).setting.output

/-- Two outputs of a logger that nothing but the sources can tell apart. What is shown of them is
what a listener hears, so that `shown` speaks of loggers with a listener only. -/
structure SameButSources (logger : Log.Logger) (source source' : Bytes)
    (output output' : Log.Output) : Prop where
  hidden : Redaction.hidePath logger.hide source = Redaction.hidePath logger.hide source' →
    output.written = output'.written
  shown : logger.listener.isSome = true →
    (output.written = output'.written ↔
      output.heard.map (Log.Heard.shown logger.hide) =
        output'.heard.map (Log.Heard.shown logger.hide))

/-- What two sessions write is the same if their sources are hidden the same, and otherwise, as a
listener can tell, exactly as long as no source is shown. -/
theorem run_hides_signatures (hinfo : info.Alike info')
    (hscheme : Url.SameScheme info.destination info'.destination)
    (hsignatures : logger.hide.signatures = true) {lake : DataLake}
    (hlake : lake.SameAt info.destination info'.destination lake)
    (places : Log.Site → Log.Location) (clock : Clock) (minLevel : Log.Level)
    (steps : List Step) :
    SameButSources logger info.source info'.source
      (outputOf places clock logger minLevel lake steps info)
      (outputOf places clock logger minLevel lake steps info') := by
  have hrun := (alike_start places clock logger minLevel hlake).run hinfo hscheme steps
  exact ⟨hrun.setting.output.written_eq hsignatures,
    hrun.setting.output.written_eq_iff hinfo.source hsignatures⟩

/-! ## A signature that is shown -/

/-- A copy from one place to another, which are both named by URLs with a signature. -/
def signedCopy (source destination signature : Bytes) : Info :=
  { transferId := ascii "copy-1"
    source := source ++ (ascii "?sig=" ++ signature)
    destination := destination ++ (ascii "?sig=" ++ signature)
    sourceSize := 5
    blockSize := 2 }

theorem alike_parameter {v v' : Bytes} (hv : Signature.Secret v) (hv' : Signature.Secret v') :
    Signature.Alike (ascii "?sig=" ++ v) (ascii "?sig=" ++ v') := by
  simpa using Signature.Alike.value (by decide) hv hv' .nil

theorem signedCopy_alike {source destination v v' : Bytes} (hdestination : question ∉ destination)
    (hv : Signature.Secret v) (hv' : Signature.Secret v') :
    (signedCopy source destination v).Alike (signedCopy source destination v') := by
  have hsigned := alike_parameter hv hv'
  exact ⟨rfl, hsigned.append_left source, .append_left hdestination (.query hsigned), rfl, rfl, rfl⟩

/-- The signatures of these copies have the same length. -/
def oneCopy : Info := signedCopy (ascii "https://old/fs/a") (ascii "https://new/fs/a") (ascii "one")

def twoCopy : Info := signedCopy (ascii "https://old/fs/a") (ascii "https://new/fs/a") (ascii "two")

theorem oneCopy_alike : oneCopy.Alike twoCopy :=
  signedCopy_alike (by decide) (by decide) (by decide)

theorem oneCopy_sameScheme : Url.SameScheme oneCopy.destination twoCopy.destination := by
  have hread : Url.parse oneCopy.destination = .ok
      { scheme := .https
        host := ascii "new"
        filesystem := ascii "fs"
        path := ascii "a"
        query := ascii "sig=one" } := by
    decide
  exact Url.sameScheme_of_parse oneCopy_alike.destination hread

def copySteps : List Step :=
  [.create smallOffer, .call .prologue, .call .destinationExists, .call .cleanup]

def knownPlaces (_ : Log.Site) : Log.Location :=
  { file := some (ascii "upload.cpp"), line := some 7, function := some (ascii "run") }

def hidingLogger : Log.Logger := { level := .trace, structured := true, hide := .all }

/-- A logger that hides paths too shows nothing of the signatures, though the sources differ. -/
theorem oneCopy_hidden :
    oneCopy.Alike twoCopy ∧ Url.SameScheme oneCopy.destination twoCopy.destination ∧
      smallLake.SameAt oneCopy.destination twoCopy.destination smallLake ∧
      oneCopy.source ≠ twoCopy.source ∧
      (outputOf knownPlaces {} hidingLogger .trace smallLake copySteps oneCopy).written =
        (outputOf knownPlaces {} hidingLogger .trace smallLake copySteps twoCopy).written := by
  have hlake : smallLake.SameAt oneCopy.destination twoCopy.destination smallLake :=
    ⟨rfl, rfl, rfl, fun _ _ => rfl⟩
  exact ⟨oneCopy_alike, oneCopy_sameScheme, hlake, by decide,
    (run_hides_signatures oneCopy_alike oneCopy_sameScheme rfl hlake knownPlaces {} .trace
      copySteps).hidden (by decide)⟩

/-- Copies to a place that names no scheme, unless the signature is taken for the rest of one. -/
def blindCopy (signature : Bytes) : Info :=
  { source := ascii "/f", destination := ascii "new" ++ (ascii "?sig=" ++ signature) }

theorem blindCopy_alike : (blindCopy (ascii "a")).Alike (blindCopy (ascii "a://b")) := by
  have hsigned : Signature.Alike (ascii "?sig=" ++ ascii "a") (ascii "?sig=" ++ ascii "a://b") :=
    alike_parameter (by decide) (by decide)
  exact ⟨rfl, .refl _, .append_left (by decide) (.query hsigned), rfl, rfl, rfl⟩

/-- The places are not known. -/
def nowhere (_ : Log.Site) : Log.Location := {}

/-- By default a logger shows the signature of a source; and even of destinations it shows whether
their signature was taken for the rest of a scheme. -/
theorem not_always_hidden :
    (¬ ∀ (info info' : Info) (clock : Clock) (logger : Log.Logger) (minLevel : Log.Level)
      (lake : DataLake) (steps : List Step), info.Alike info' →
      Url.SameScheme info.destination info'.destination → logger.hide = {} → lake.paths = [] →
      (outputOf nowhere clock logger minLevel lake steps info).written =
        (outputOf nowhere clock logger minLevel lake steps info').written) ∧
    ¬ ∀ (info info' : Info) (clock : Clock) (logger : Log.Logger) (minLevel : Log.Level)
      (lake : DataLake) (steps : List Step), info.Alike info' →
      info.source = info'.source → logger.hide = {} → lake.paths = [] →
      (outputOf nowhere clock logger minLevel lake steps info).written =
        (outputOf nowhere clock logger minLevel lake steps info').written := by
  constructor
  · intro h
    have hsame := h oneCopy twoCopy {} { level := .debug } .info smallLake copySteps oneCopy_alike
      oneCopy_sameScheme rfl rfl
    revert hsame
    decide +kernel
  · intro h
    have hsame := h _ _ {} {} .info smallLake copySteps blindCopy_alike rfl rfl rfl
    revert hsame
    decide +kernel

end Session

end Upload

end LakeUpload
