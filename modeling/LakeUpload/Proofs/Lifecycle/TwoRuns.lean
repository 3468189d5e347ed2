import LakeUpload.Proofs.Destination.Signed
import LakeUpload.Proofs.Lifecycle.Timeline
import LakeUpload.Proofs.Log.Lines
import LakeUpload.Sender.Run

/-!
# Two runs that differ in signatures only

Two transfers whose source and destination differ in signatures only are led through the same
steps, side by side. If the service treats the two destinations alike, then so does all else: after
every step the two settings agree in whatever decides what happens next, and their loggers were
given records that are alike. One lemma for each operation says that it keeps this up.
-/

namespace LakeUpload

open Bytes (ascii)

/-! ## What is alike -/

/-- Transfers of the same thing, whose texts differ in signatures only. -/
structure Info.Alike (info info' : Info) : Prop where
  transferId : info.transferId = info'.transferId
  source : Signature.Alike info.source info'.source
  destination : Signature.AlikeQuery info.destination info'.destination
  sourceSize : info.sourceSize = info'.sourceSize
  blockSize : info.blockSize = info'.blockSize
  entity : info.entity = info'.entity

/-- Trackers of the two transfers that were told the same. What they keep of a failure plays no
part in what they do. -/
structure Tracker.Alike (info info' : Info) (tracker tracker' : Tracker) : Prop where
  info : tracker.info = info
  info' : tracker'.info = info'
  minLevel : tracker.minLevel = tracker'.minLevel
  status : tracker.status = tracker'.status
  source : tracker.source = tracker'.source
  flags : tracker.flags = tracker'.flags

inductive Verdict.Alike : Verdict → Verdict → Prop where
  | failed (stage : Bytes) {fault fault' : Fault} (h : fault.Alike fault') :
      Alike (.failed stage fault) (.failed stage fault')
  | cancelled : Alike .cancelled .cancelled
  | succeeded : Alike .succeeded .succeeded

structure Reaction.Alike {σ α : Type} (states : σ → σ → Prop) (reaction reaction' : Reaction σ α) :
    Prop where
  state : states reaction.state reaction'.state
  incidents : reaction.incidents = reaction'.incidents
  answer : Fault.AlikeAnswers Eq reaction.answer reaction'.answer

/-- The service works on one URL in one run as it does on the other URL in the other run. -/
structure Service.BlindAt {σ : Type} (service : Service σ) (states : σ → σ → Prop)
    (url url' : Url) : Prop where
  create : ∀ {state state'}, states state state' → ∀ arrival kind headers length,
    (service.create state arrival url kind headers length).Alike states
      (service.create state' arrival url' kind headers length)
  remove : ∀ {state state'}, states state state' → ∀ arrival kind,
    (service.remove state arrival url kind).Alike states
      (service.remove state' arrival url' kind)
  properties : ∀ {state state'}, states state state' → ∀ arrival,
    (service.properties state arrival url).Alike states
      (service.properties state' arrival url')

/-- The service does so wherever the two destinations are. -/
def Service.Blind {σ : Type} (service : Service σ) (states : σ → σ → Prop) (info info' : Info) :
    Prop :=
  ∀ ⦃url url'⦄, Url.parse info.destination = .ok url → Url.parse info'.destination = .ok url' →
    service.BlindAt states url url'

/-- Settings of the two runs, which agree in whatever decides what happens next. -/
structure Setting.Alike {σ : Type} (common : Log.Logger) (states : σ → σ → Prop)
    (info info' : Info) (s s' : Setting Tracker σ) : Prop where
  clock : s.clock = s'.clock
  logger : s.logger = common
  logger' : s'.logger = common
  places : s.places = s'.places
  output : s.output.Alike common info.source info'.source s'.output
  transfer : s.transfer.Alike info info' s'.transfer
  service : states s.service s'.service

/-- Targets at the two destinations. -/
structure Target.Alike (info info' : Info) (target target' : Target) : Prop where
  kind : target.kind = target'.kind
  url : Url.parse info.destination = .ok target.url
  url' : Url.parse info'.destination = .ok target'.url

structure Sender.Alike (info info' : Info) (sender sender' : Sender) : Prop where
  target : sender.target.Alike info info' sender'.target
  plan : sender.plan = sender'.plan
  headers : sender.headers = sender'.headers
  config : sender.config = sender'.config
  phase : sender.phase = sender'.phase
  threshold : sender.threshold = sender'.threshold

theorem Verdict.Alike.refl (verdict : Verdict) : verdict.Alike verdict := by
  cases verdict with
  | failed stage fault =>
      exact .failed stage (.refl fault)
  | cancelled =>
      exact .cancelled
  | succeeded =>
      exact .succeeded

variable {σ α : Type} {logger : Log.Logger} {states : σ → σ → Prop} {info info' : Info}

/-! ## What a tracker says -/

namespace Tracker.Alike

variable {tracker tracker' : Tracker}

theorem details (h : tracker.Alike info info' tracker') (hinfo : info.Alike info') :
    tracker.details.Alike info.source info'.source tracker'.details where
  transferId := by
    simp only [Tracker.details, h.info, h.info', hinfo.transferId]
  source := by
    simp only [Tracker.details, h.info, h.info', and_self, or_true]
  destination := by
    simp only [Tracker.details, h.info, h.info']
    exact hinfo.destination.alike
  sourceSize := rfl
  chunkSize := rfl
  chunkCount := rfl
  stage := rfl
  errorMessage := .none

theorem messageOf (h : tracker.Alike info info' tracker') (hinfo : info.Alike info')
    {verdict verdict' : Verdict} (hverdict : verdict.Alike verdict') :
    (tracker.messageOf verdict).Alike info.source info'.source (tracker'.messageOf verdict') := by
  have hdetails := h.details hinfo
  cases hverdict with
  | failed stage hfault =>
      refine ⟨rfl, rfl, .refl _, .some ?_, rfl⟩
      exact { hdetails with stage := rfl, errorMessage := .some hfault.message }
  | cancelled | succeeded =>
      exact ⟨rfl, rfl, .refl _, .some hdetails, rfl⟩

theorem note (h : tracker.Alike info info' tracker') (hinfo : info.Alike info') (level : Log.Level)
    {text text' : Bytes} (htext : Signature.Alike text text') :
    (tracker.note level text).Alike info.source info'.source (tracker'.note level text') :=
  ⟨rfl, rfl, htext, .some (h.details hinfo), rfl⟩

theorem report (h : tracker.Alike info info' tracker') {verdict verdict' : Verdict}
    (hverdict : verdict.Alike verdict') :
    (tracker.report verdict).transfer.Alike info info' (tracker'.report verdict').transfer := by
  have hend : endOf verdict = endOf verdict' := by
    cases hverdict <;> rfl
  unfold Tracker.report
  rw [← h.status, hend, ← h.source, ← h.flags]
  split
  · exact { h with status := rfl, source := rfl, flags := rfl }
  · exact h

end Tracker.Alike

/-! ## Settings -/

namespace Setting

theorem report_of_started {s : Setting Tracker σ} (h : s.transfer.status = .started)
    (verdict : Verdict) :
    s.report verdict =
      Setting.write { s with transfer := (s.transfer.report verdict).transfer }
        (s.transfer.messageOf verdict) := by
  simp [report, Transfer.report, Tracker.report, h, notify]

namespace Alike

variable {s s' : Setting Tracker σ}

theorem write (h : s.Alike logger states info info' s') {m m' : Log.Message}
    (hmessage : m.Alike info.source info'.source m') :
    (s.write m).Alike logger states info info' (s'.write m') where
  clock := h.clock
  logger := h.logger
  logger' := h.logger'
  places := h.places
  output := by
    simp only [Setting.write, ← h.clock, h.logger, h.logger', ← h.places]
    exact h.output.log (hmessage.record s.places) _
  transfer := h.transfer
  service := h.service

theorem writeAll (h : s.Alike logger states info info' s') (messages : List Log.Message) :
    (s.writeAll messages).Alike logger states info info' (s'.writeAll messages) := by
  induction messages generalizing s s' with
  | nil =>
      exact h
  | cons message rest ih =>
      exact ih (h.write (.refl message))

theorem context_eq (h : s.Alike logger states info info' s') : s.context = s'.context := by
  simp only [context, Transfer.context, Tracker.context, h.transfer.source]

variable (hinfo : info.Alike info')

include hinfo

theorem report (h : s.Alike logger states info info' s') {verdict verdict' : Verdict}
    (hverdict : verdict.Alike verdict') :
    (s.report verdict).Alike logger states info info' (s'.report verdict') := by
  by_cases hstarted : s.transfer.status = .started
  · have hstarted' := h.transfer.status.symm.trans hstarted
    rw [report_of_started hstarted, report_of_started hstarted']
    have htold : Setting.Alike logger states info info'
        { s with transfer := (s.transfer.report verdict).transfer }
        { s' with transfer := (s'.transfer.report verdict').transfer } :=
      { h with transfer := h.transfer.report hverdict }
    exact htold.write (h.transfer.messageOf hinfo hverdict)
  · have hstarted' : s'.transfer.status ≠ .started := h.transfer.status ▸ hstarted
    rw [report_of_ne_started hstarted, report_of_ne_started hstarted']
    exact h

theorem say (h : s.Alike logger states info info' s') (level : Log.Level) {message message' : Bytes}
    (hmessage : Signature.Alike message message') :
    (s.say level message).Alike logger states info info' (s'.say level message') := by
  cases hpasses : level.passes s.transfer.minLevel with
  | false =>
      rw [say_of_not_passes hpasses, say_of_not_passes (h.transfer.minLevel ▸ hpasses)]
      exact h
  | true =>
      rw [say_of_passes hpasses, say_of_passes (h.transfer.minLevel ▸ hpasses)]
      exact h.write (h.transfer.note hinfo level hmessage)

theorem incur (h : s.Alike logger states info info' s') (incident : Incident) :
    (s.incur incident).Alike logger states info info' (s'.incur incident) := by
  cases incident with
  | pass nanos =>
      exact { h with clock := congrArg (Clock.advance · nanos) h.clock }
  | report verdict =>
      exact h.report hinfo (.refl verdict)
  | say level message =>
      exact h.say hinfo level (.refl message)

theorem incidents (h : s.Alike logger states info info' s') (incidents : List Incident) :
    (incidents.foldl Setting.incur s).Alike logger states info info'
      (incidents.foldl Setting.incur s') := by
  induction incidents generalizing s s' with
  | nil =>
      exact h
  | cons incident rest ih =>
      exact ih (h.incur hinfo incident)

theorem received (h : s.Alike logger states info info' s') (call call' : Call)
    {reaction reaction' : Reaction σ α} (hreaction : reaction.Alike states reaction') :
    (s.received call reaction).Alike logger states info info' (s'.received call' reaction') := by
  have hreceived : Setting.Alike logger states info info'
      { s with service := reaction.state, calls := s.calls ++ [call] }
      { s' with service := reaction'.state, calls := s'.calls ++ [call'] } :=
    ⟨h.clock, h.logger, h.logger', h.places, h.output, h.transfer, hreaction.state⟩
  rw [Setting.received, Setting.received, hreaction.incidents]
  exact hreceived.incidents hinfo reaction'.incidents

/-- Requests under the same context are sent in both runs or in none. -/
theorem send (h : s.Alike logger states info info' s') (ctx : CallContext)
    {request request' : Request} {react react' : σ → Arrival → Reaction σ α}
    (hreact : ∀ arrival, (react s.service arrival).Alike states (react' s'.service arrival)) :
    Fault.AlikeAnswers Eq (s.send ctx request react).1 (s'.send ctx request' react').1 ∧
      (s.send ctx request react).2.Alike logger states info info'
        (s'.send ctx request' react').2 := by
  have harrival : s'.arrival ctx = s.arrival ctx := by
    simp only [arrival, Transfer.flags, h.transfer.flags, h.clock]
  have hcheck : ctx.check s'.transfer.flags s'.clock.steady =
      ctx.check s.transfer.flags s.clock.steady := by
    rw [h.transfer.flags, h.clock]
  cases hdone : ctx.check s.transfer.flags s.clock.steady with
  | error fault =>
      rw [send_of_check_error hdone, send_of_check_error (hcheck.trans hdone)]
      exact ⟨.error (.refl fault), h⟩
  | ok live =>
      rw [send_of_check_ok hdone, send_of_check_ok (hcheck.trans hdone), harrival]
      exact ⟨(hreact _).answer, h.received hinfo _ _ (hreact _)⟩

end Alike

end Setting

/-! ## Targets -/

namespace Target.Alike

variable {target target' : Target} {service : Service σ} {s s' : Setting Tracker σ}
variable (hinfo : info.Alike info')

include hinfo

theorem toText (h : target.Alike info info' target')
    (hscheme : Url.SameScheme info.destination info'.destination) :
    Signature.Alike target.toText target'.toText :=
  (Url.alike_of_parse hinfo.destination hscheme h.url h.url').toText

variable (hblind : service.Blind states info info')

include hblind

theorem create (h : target.Alike info info' target') (hs : s.Alike logger states info info' s')
    (ctx : CallContext) (headers : Headers) (length : UInt64) :
    Fault.AlikeAnswers Eq (target.create service ctx headers length s).1
        (target'.create service ctx headers length s').1 ∧
      (target.create service ctx headers length s).2.Alike logger states info info'
        (target'.create service ctx headers length s').2 := by
  unfold Target.create
  rw [← h.kind]
  exact hs.send hinfo ctx fun arrival => (hblind h.url h.url').create hs.service arrival _ _ _

theorem remove (h : target.Alike info info' target') (hs : s.Alike logger states info info' s')
    (ctx : CallContext) :
    Fault.AlikeAnswers Eq (target.remove service ctx s).1 (target'.remove service ctx s').1 ∧
      (target.remove service ctx s).2.Alike logger states info info'
        (target'.remove service ctx s').2 := by
  unfold Target.remove
  rw [← h.kind]
  exact hs.send hinfo ctx fun arrival => (hblind h.url h.url').remove hs.service arrival _

theorem properties (h : target.Alike info info' target') (hs : s.Alike logger states info info' s')
    (ctx : CallContext) :
    Fault.AlikeAnswers Eq (target.properties service ctx s).1
        (target'.properties service ctx s').1 ∧
      (target.properties service ctx s).2.Alike logger states info info'
        (target'.properties service ctx s').2 := by
  unfold Target.properties
  exact hs.send hinfo ctx fun arrival => (hblind h.url h.url').properties hs.service arrival

end Target.Alike

/-! ## Senders -/

namespace Sender.Alike

variable {sender sender' : Sender} {service : Service σ} {s s' : Setting Tracker σ}

theorem details (h : sender.Alike info info' sender') (hinfo : info.Alike info')
    (hscheme : Url.SameScheme info.destination info'.destination) :
    (sender.details info).Alike info.source info'.source (sender'.details info') where
  transferId := hinfo.transferId
  source := .inr ⟨rfl, rfl⟩
  destination := h.target.toText hinfo hscheme
  sourceSize := congrArg some hinfo.sourceSize
  chunkSize := by
    simp only [Sender.details, h.plan]
  chunkCount := by
    simp only [Sender.details, h.plan]
  stage := rfl
  errorMessage := .none

theorem begun (h : sender.Alike info info' sender') : sender.begun.Alike info info' sender'.begun :=
  { h with
    phase := rfl
    threshold := by
      simp only [Sender.begun, Sender.flushBytes, h.plan, h.config] }

theorem cleaned (h : sender.Alike info info' sender') :
    sender.cleaned.Alike info info' sender'.cleaned :=
  { h with phase := rfl }

variable (hinfo : info.Alike info')
  (hscheme : Url.SameScheme info.destination info'.destination)

include hinfo hscheme

theorem announcement (h : sender.Alike info info' sender') :
    (sender.announcement info).Alike info.source info'.source (sender'.announcement info') :=
  ⟨rfl, rfl, .refl _, .some { h.details hinfo hscheme with stage := rfl }, rfl⟩

theorem createdMessage (h : sender.Alike info info' sender') :
    (sender.createdMessage info).Alike info.source info'.source (sender'.createdMessage info') :=
  ⟨rfl, rfl, .refl _, .some (h.details hinfo hscheme), rfl⟩

theorem deletedMessage (h : sender.Alike info info' sender') :
    (sender.deletedMessage info).Alike info.source info'.source (sender'.deletedMessage info') :=
  ⟨rfl, rfl, .refl _, .some (h.details hinfo hscheme), rfl⟩

theorem deleteFailed (h : sender.Alike info info' sender') {fault fault' : Fault}
    (hfault : fault.Alike fault') :
    Signature.Alike (sender.deleteFailed fault) (sender'.deleteFailed fault') :=
  (((h.target.toText hinfo hscheme).append_left _).append_right _).append hfault.message

variable (hblind : service.Blind states info info')

include hblind

theorem making (h : sender.Alike info info' sender') (hs : s.Alike logger states info info' s') :
    Fault.AlikeAnswers Eq (sender.making service s).1 (sender'.making service s').1 ∧
      (sender.making service s).2.Alike logger states info info' (sender'.making service s').2 := by
  unfold Sender.making
  rw [hs.transfer.info, hs.transfer.info', ← hs.context_eq, ← h.headers, ← hinfo.sourceSize]
  exact h.target.create hinfo hblind (hs.write (h.announcement hinfo hscheme)) _ _ _

theorem prologue (h : sender.Alike info info' sender') (hs : s.Alike logger states info info' s') :
    (sender.prologue service s).2.1.Alike info info' (sender'.prologue service s').2.1 ∧
      (sender.prologue service s).2.2.Alike logger states info info'
        (sender'.prologue service s').2.2 := by
  by_cases hphase : sender.phase = .constructed
  · obtain ⟨hanswer, hmade⟩ := h.making hinfo hscheme hblind hs
    rw [Sender.prologue_of_constructed service sender s hphase,
      Sender.prologue_of_constructed service sender' s' (h.phase ▸ hphase)]
    rcases hanswer.ok_or_error with
      ⟨done, done', hok, hok', -⟩ | ⟨fault, fault', her, her', hfault⟩
    · rw [hok, hok']
      exact ⟨h.begun, hmade⟩
    · rw [her, her']
      exact ⟨h.begun, hmade.report hinfo (.failed _ hfault)⟩
  · rw [Sender.prologue_of_ne_constructed hphase,
      Sender.prologue_of_ne_constructed (h.phase ▸ hphase)]
    exact ⟨h, hs⟩

theorem cleanup (h : sender.Alike info info' sender') (hs : s.Alike logger states info info' s') :
    (sender.cleanup service s).1.Alike info info' (sender'.cleanup service s').1 ∧
      (sender.cleanup service s).2.Alike logger states info info'
        (sender'.cleanup service s').2 := by
  have hcontext : sender'.cleanupContext s'.clock.steady =
      sender.cleanupContext s.clock.steady := by
    simp only [Sender.cleanupContext, h.config, hs.clock]
  unfold Sender.cleanup
  simp only [Transfer.isDead, ← h.phase, ← hs.transfer.status, hcontext]
  split
  · exact ⟨h, hs⟩
  split
  · obtain ⟨hanswer, hremoved⟩ :=
      h.target.remove hinfo hblind hs (sender.cleanupContext s.clock.steady)
    rcases hanswer.ok_or_error with
      ⟨done, done', hok, hok', -⟩ | ⟨fault, fault', her, her', hfault⟩
    · rw [hok, hok']
      refine ⟨h.cleaned, hremoved.write ?_⟩
      simp only [Transfer.info, hremoved.transfer.info, hremoved.transfer.info']
      exact h.deletedMessage hinfo hscheme
    · rw [her, her']
      exact ⟨h.cleaned, hremoved.say hinfo _ (h.deleteFailed hinfo hscheme hfault)⟩
  · exact ⟨h.cleaned, hs⟩

end Sender.Alike

/-! ## Making a sender -/

section

variable {s s' : Setting Tracker σ} (hinfo : info.Alike info')
  (hscheme : Url.SameScheme info.destination info'.destination)

include hinfo hscheme

theorem Target.alike_resolve (hs : s.Alike logger states info info' s') (hasService : Bool) :
    Fault.AlikeAnswers (Target.Alike info info')
        (Target.resolve hasService info.destination info.entity).1
        (Target.resolve hasService info'.destination info'.entity).1 ∧
      (s.writeAll (Target.resolve hasService info.destination info.entity).2).Alike logger states
        info info' (s'.writeAll (Target.resolve hasService info'.destination info'.entity).2) := by
  cases hasService with
  | false =>
      exact ⟨.error (.refl _), hs⟩
  | true =>
      rcases (Url.alike_parse hinfo.destination hscheme).ok_or_error with
        ⟨url, url', hok, hok', hurl⟩ | ⟨fault, fault', her, her', hfault⟩
      · have htext := hurl.toText.append_left
          (ascii "resolved " ++ (TargetKind.ofEntity info.entity).name ++ ascii " target ")
        simp only [Target.resolve, if_true, hok, hok', ← hinfo.entity]
        exact ⟨.ok ⟨rfl, hok, hok'⟩, hs.write ⟨rfl, rfl, htext, .none, rfl⟩⟩
      · simp only [Target.resolve, if_true, her, her']
        exact ⟨.error hfault, hs.write ⟨rfl, rfl, hfault.message, .none, rfl⟩⟩

theorem Sender.alike_createFrom (hs : s.Alike logger states info info' s') {target target' : Target}
    (htarget : target.Alike info info' target') (offer : Offer) (plan : ChunkPlan) :
    Fault.AlikeAnswers (Sender.Alike info info') (Sender.createFrom offer target plan s).1
        (Sender.createFrom offer target' plan s').1 ∧
      (Sender.createFrom offer target plan s).2.Alike logger states info info'
        (Sender.createFrom offer target' plan s').2 := by
  have hasked := hs.writeAll offer.source.messages
  unfold Sender.createFrom
  simp only [Transfer.info, hs.transfer.info, hs.transfer.info']
  cases offer.source.answer with
  | error fault =>
      have hmessage : Signature.Alike (Sender.sourceFailed info fault).message
          (Sender.sourceFailed info' fault).message :=
        ((hinfo.source.append_left _).append_right _).append_right _
      exact ⟨.error ⟨rfl, hmessage⟩, hasked.write ⟨rfl, rfl, hmessage, .none, rfl⟩⟩
  | ok properties =>
      have hmade : (Sender.make offer.config target plan properties.headers).Alike info info'
          (Sender.make offer.config target' plan properties.headers) :=
        ⟨htarget, rfl, rfl, rfl, rfl, rfl⟩
      exact ⟨.ok hmade, hasked.write (hmade.createdMessage hinfo hscheme)⟩

theorem Sender.alike_create (hs : s.Alike logger states info info' s') (offer : Offer) :
    Fault.AlikeAnswers (Sender.Alike info info') (Sender.create offer s).1
        (Sender.create offer s').1 ∧
      (Sender.create offer s).2.Alike logger states info info' (Sender.create offer s').2 := by
  obtain ⟨hresolved, htold⟩ := Target.alike_resolve hinfo hscheme hs offer.hasService
  unfold Sender.create
  simp only [Transfer.info, hs.transfer.info, hs.transfer.info']
  split
  · cases offer.config.validate with
    | error fault =>
        exact ⟨.error (.refl fault), hs⟩
    | ok valid =>
        rcases hresolved.ok_or_error with
          ⟨target, target', hok, hok', htarget⟩ | ⟨fault, fault', her, her', hfault⟩
        · simp only [hok, hok', ← hinfo.sourceSize, ← hinfo.blockSize]
          cases ChunkPlan.ofSource info.sourceSize info.blockSize with
          | error fault =>
              exact ⟨.error (.refl fault), htold.write (.refl _)⟩
          | ok plan =>
              exact Sender.alike_createFrom hinfo hscheme htold htarget offer plan
        · simp only [her, her']
          exact ⟨.error hfault, htold⟩
  · exact ⟨.error (.refl _), hs⟩

end

/-! ## Steps of an upload -/

/-- Whatever the answer is, the setting is the one in which the target was asked. -/
theorem Sender.setting_destinationExists (service : Service σ) (sender : Sender)
    (s : Setting Tracker σ) :
    (sender.destinationExists service s).2 = (sender.target.properties service s.context s).2 := by
  unfold Sender.destinationExists
  dsimp only
  split
  · rfl
  · split <;> rfl

namespace Upload

structure Alike (logger : Log.Logger) (states : σ → σ → Prop) (info info' : Info)
    (upload upload' : Upload Tracker σ) : Prop where
  sender : upload.sender.Alike info info' upload'.sender
  setting : upload.setting.Alike logger states info info' upload'.setting

/-- One step keeps the two runs alike. -/
theorem Alike.step {service : Service σ} {upload upload' : Upload Tracker σ}
    (h : upload.Alike logger states info info' upload') (hinfo : info.Alike info')
    (hscheme : Url.SameScheme info.destination info'.destination)
    (hblind : service.Blind states info info') (step : Step) :
    (upload.step service step).2.Alike logger states info info' (upload'.step service step).2 := by
  have hfound := h.sender.target.properties hinfo hblind h.setting upload.setting.context
  cases step with
  | prologue =>
      obtain ⟨hsender, hsetting⟩ := h.sender.prologue hinfo hscheme hblind h.setting
      exact ⟨hsender, hsetting⟩
  | cleanup =>
      obtain ⟨hsender, hsetting⟩ := h.sender.cleanup hinfo hscheme hblind h.setting
      exact ⟨hsender, hsetting⟩
  | destinationExists =>
      refine ⟨h.sender, ?_⟩
      simp only [Upload.step, Sender.setting_destinationExists, ← h.setting.context_eq]
      exact hfound.2
  | destinationLength =>
      refine ⟨h.sender, ?_⟩
      simp only [Upload.step, Sender.destinationLength, ← h.setting.context_eq]
      exact hfound.2
  | incident incident =>
      exact ⟨h.sender, h.setting.incur hinfo incident⟩

end Upload

end LakeUpload
