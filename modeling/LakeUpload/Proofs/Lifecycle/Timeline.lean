import LakeUpload.Proofs.Lifecycle.FirstReport
import LakeUpload.Proofs.Lifecycle.Trace

/-!
# The timeline of an upload

What a sender reports as its state is put together from its own phase and the status of the
tracker, and the two change at different times: the phase as soon as a step begins, the status also
in the middle of a step, while the service works on a call. A timeline holds every moment of a run
at which the state can be asked for. Between two of its moments the phase can only move on, and the
tracker can only be told something.
-/

namespace LakeUpload

/-! ## The order of phases and states -/

namespace Phase

def rank : Phase → Nat
  | constructed => 0
  | prologued => 1
  | cleanedUp => 2

end Phase

namespace SenderState

/-- How far along a state is; success and failure are equally far. -/
def rank : SenderState → Nat
  | constructed => 0
  | prologued => 1
  | succeeded => 2
  | failed => 2
  | cleanedUp => 3

/-- A state is followed by itself or by one that is further along. -/
instance : LE SenderState where
  le earlier later := earlier = later ∨ earlier.rank < later.rank

theorem le_iff {earlier later : SenderState} :
    earlier ≤ later ↔ earlier = later ∨ earlier.rank < later.rank := Iff.rfl

theorem le_failed_iff {state : SenderState} :
    failed ≤ state ↔ state = failed ∨ state = cleanedUp := by
  rw [le_iff]
  cases state <;> decide

theorem of_prologued_of_isDead {status : Status} (h : status.isDead = true) :
    of .prologued status = failed := by
  rcases Status.isDead_iff.1 h with hfailed | hcancelled
  · rw [hfailed]
    rfl
  · rw [hcancelled]
    rfl

/-- A phase may move on, and a status may leave `started`. -/
theorem of_le_of {phase phase' : Phase} {status status' : Status}
    (hphase : phase.rank ≤ phase'.rank) (hstatus : status = .started ∨ status' = status) :
    of phase status ≤ of phase' status' := by
  rw [le_iff]
  cases phase with
  | constructed =>
      cases phase' with
      | constructed =>
          exact .inl rfl
      | prologued =>
          right
          cases status' <;> simp [of, Status.isDead, rank]
      | cleanedUp =>
          exact .inr (by simp [of, rank])
  | prologued =>
      cases phase' with
      | constructed =>
          simp [Phase.rank] at hphase
      | prologued =>
          rcases hstatus with hstarted | hsame
          · subst hstarted
            cases status' <;> simp [of, Status.isDead, rank]
          · exact .inl (by rw [hsame])
      | cleanedUp =>
          right
          cases status <;> simp [of, Status.isDead, rank]
  | cleanedUp =>
      cases phase' with
      | constructed | prologued =>
          simp [Phase.rank] at hphase
      | cleanedUp =>
          exact .inl rfl

end SenderState

/-! ## Trackers and services inside a call -/

namespace Tracker

/-- What becomes of a tracker by something that happens. -/
def incur (tracker : Tracker) : Incident → Tracker
  | .report verdict => (tracker.report verdict).transfer
  | .pass _ | .say _ _ => tracker

/-- The later tracker came from the earlier one by reports. -/
def Leads (earlier later : Tracker) : Prop := ∃ verdicts, later = earlier.run verdicts

theorem Leads.refl (tracker : Tracker) : tracker.Leads tracker := ⟨[], rfl⟩

theorem Leads.trans {first second third : Tracker} (hfirst : first.Leads second)
    (hsecond : second.Leads third) : first.Leads third := by
  obtain ⟨before, rfl⟩ := hfirst
  obtain ⟨after, rfl⟩ := hsecond
  exact ⟨before ++ after, (run_append _ _ _).symm⟩

/-- Nothing leads away from a tracker that has come to its end. -/
theorem Leads.eq_of_ne_started {earlier later : Tracker} (h : earlier.Leads later)
    (hended : earlier.status ≠ .started) : later = earlier := by
  obtain ⟨verdicts, rfl⟩ := h
  exact run_of_ne_started hended verdicts

theorem Leads.status {earlier later : Tracker} (h : earlier.Leads later) :
    earlier.status = .started ∨ later.status = earlier.status := by
  by_cases hstarted : earlier.status = .started
  · exact .inl hstarted
  · exact .inr (by rw [h.eq_of_ne_started hstarted])

theorem Reached.of_leads {earlier later : Tracker} (h : earlier.Reached)
    (hleads : earlier.Leads later) : later.Reached := by
  obtain ⟨verdicts, rfl⟩ := hleads
  exact h.run verdicts

theorem leads_report (tracker : Tracker) (verdict : Verdict) :
    tracker.Leads (tracker.report verdict).transfer := ⟨[verdict], rfl⟩

theorem leads_incur (tracker : Tracker) (incident : Incident) :
    tracker.Leads (tracker.incur incident) := by
  cases incident with
  | report verdict =>
      exact tracker.leads_report verdict
  | pass nanos | say level message =>
      exact Leads.refl tracker

theorem leads_foldl_incur (tracker : Tracker) (incidents : List Incident) :
    tracker.Leads (incidents.foldl incur tracker) := by
  induction incidents generalizing tracker with
  | nil =>
      exact Leads.refl tracker
  | cons incident rest ih =>
      exact (tracker.leads_incur incident).trans (ih (tracker.incur incident))

/-- The tracker at every moment of some incidents, the last included. -/
def along (tracker : Tracker) (incidents : List Incident) : List Tracker :=
  incidents.scanl incur tracker

theorem leads_of_mem_along {tracker later : Tracker} {incidents : List Incident}
    (h : later ∈ tracker.along incidents) :
    tracker.Leads later ∧ later.Leads (incidents.foldl incur tracker) := by
  induction incidents generalizing tracker with
  | nil =>
      rw [List.mem_singleton.1 h]
      exact ⟨Leads.refl tracker, Leads.refl tracker⟩
  | cons incident rest ih =>
      rw [along, List.scanl_cons] at h
      rcases List.mem_cons.1 h with hfirst | hrest
      · rw [hfirst]
        exact ⟨Leads.refl tracker, leads_foldl_incur tracker (incident :: rest)⟩
      · obtain ⟨hstart, hend⟩ := ih hrest
        exact ⟨(tracker.leads_incur incident).trans hstart, hend⟩

theorem pairwise_along (tracker : Tracker) (incidents : List Incident) :
    (tracker.along incidents).Pairwise Leads := by
  induction incidents generalizing tracker with
  | nil =>
      exact List.pairwise_singleton Leads tracker
  | cons incident rest ih =>
      rw [along, List.scanl_cons]
      refine List.pairwise_cons.2 ⟨?_, ih (tracker.incur incident)⟩
      intro later hlater
      exact (tracker.leads_incur incident).trans (leads_of_mem_along hlater).1

/-- A failure that is reported kills the transfer, or finds it dead, unless it had succeeded. -/
theorem Reached.isDead_report_failed {tracker : Tracker} (h : tracker.Reached)
    (hundone : tracker.status ≠ .succeeded) (stage : Bytes) (fault : Fault) :
    (tracker.report (.failed stage fault)).transfer.status.isDead = true := by
  by_cases hstarted : tracker.status = .started
  · rw [status_report_of_started hstarted]
    rfl
  · rw [report_of_ne_started hstarted]
    obtain ⟨info, minLevel, verdicts, rfl⟩ := h
    rw [(decided_run info minLevel verdicts).status] at hstarted hundone ⊢
    generalize verdicts.head? = first at hstarted hundone ⊢
    rcases first with _ | _ | _ | _
    · exact absurd rfl hstarted
    · rfl
    · rfl
    · exact absurd rfl hundone

end Tracker

/-- What happens while a service works on a call. -/
def Service.incidents {σ : Type} (service : Service σ) (state : σ) (call : Call) : List Incident :=
  match call.request with
  | .create url kind headers length =>
      (service.create state call.toArrival url kind headers length).incidents
  | .remove url kind => (service.remove state call.toArrival url kind).incidents
  | .properties url => (service.properties state call.toArrival url).incidents

namespace Setting

variable {σ α : Type}

theorem transfer_incur (s : Setting Tracker σ) (incident : Incident) :
    (s.incur incident).transfer = s.transfer.incur incident := by
  cases incident with
  | pass nanos =>
      rfl
  | report verdict =>
      exact transfer_report s verdict
  | say level message =>
      exact transfer_say s level message

theorem transfer_incidents (s : Setting Tracker σ) (incidents : List Incident) :
    (incidents.foldl incur s).transfer = incidents.foldl Tracker.incur s.transfer := by
  induction incidents generalizing s with
  | nil =>
      rfl
  | cons incident rest ih =>
      rw [List.foldl_cons, ih, transfer_incur, List.foldl_cons]

/-- The tracker once the calls of a request were worked on. -/
def heard (service : Service σ) (s : Setting Tracker σ) (calls : List Call) : Tracker :=
  calls.foldl (fun tracker call => (service.incidents s.service call).foldl Tracker.incur tracker)
    s.transfer

theorem transfer_send (service : Service σ) {s : Setting Tracker σ} {ctx : CallContext}
    {request : Request} {react : σ → Arrival → Reaction σ α}
    (hreact : ∀ arrival, (react s.service arrival).incidents =
      service.incidents s.service { arrival with request }) :
    (s.send ctx request react).2.transfer = s.heard service (s.attempt ctx request) := by
  cases hdone : ctx.isDone s.transfer.flags s.clock.steady with
  | false =>
      rw [send_of_live hdone, attempt_of_live hdone]
      show (((react s.service (s.arrival ctx)).incidents).foldl incur _).transfer = _
      rw [transfer_incidents, hreact]
      rfl
  | true =>
      obtain ⟨fault, hsend⟩ := send_of_done hdone request react
      rw [hsend]
      simp only [attempt, hdone, if_true]
      rfl

end Setting

namespace Sender

variable {σ : Type} (service : Service σ) (sender : Sender) (s : Setting Tracker σ)

/-- What comes of the request for the destination in an accepted prologue. -/
def making : Except Fault Unit × Setting Tracker σ :=
  sender.target.create service s.context sender.headers s.transfer.info.sourceSize
    (s.write (sender.announcement s.transfer.info))

theorem prologue_of_constructed (hphase : sender.phase = .constructed) :
    sender.prologue service s =
      match (sender.making service s).1 with
      | .ok () => ({ modified := true, fault := none }, sender.begun, (sender.making service s).2)
      | .error fault =>
          ({ modified := true, fault := some fault }, sender.begun,
            (sender.making service s).2.report (.failed creatingStage fault)) := by
  simp only [prologue, hphase, if_true]
  rfl

theorem transfer_making :
    (sender.making service s).2.transfer =
      s.heard service (s.attempt s.context
        (.create sender.target.url sender.target.kind.entity sender.headers
          s.transfer.info.sourceSize)) :=
  Setting.transfer_send service (s := s.write (sender.announcement s.transfer.info)) fun _ => rfl

theorem leads_making : s.transfer.Leads (sender.making service s).2.transfer :=
  (Target.sent_create service sender.target s.context
    (s.write (sender.announcement s.transfer.info)) sender.headers
    s.transfer.info.sourceSize).transfer

end Sender

namespace Target

variable {σ : Type} (service : Service σ) (target : Target) (ctx : CallContext)
variable (s : Setting Tracker σ)

theorem transfer_remove :
    (target.remove service ctx s).2.transfer =
      s.heard service (s.attempt ctx (.remove target.url target.kind.entity)) :=
  Setting.transfer_send service fun _ => rfl

theorem transfer_properties :
    (target.properties service ctx s).2.transfer =
      s.heard service (s.attempt ctx (.properties target.url)) :=
  Setting.transfer_send service fun _ => rfl

end Target

/-! ## Moments of a run -/

/-- A moment of a run: the steps that have begun, and what the reported state hangs on. -/
structure Moment where
  begun : List Upload.Step
  phase : Phase
  tracker : Tracker

namespace Moment

/-- What the sender reports at this moment. -/
def state (moment : Moment) : SenderState := .of moment.phase moment.tracker.status

/-- The later moment may come after the earlier one. -/
structure Leads (earlier later : Moment) : Prop where
  phase : earlier.phase.rank ≤ later.phase.rank
  tracker : earlier.tracker.Leads later.tracker

theorem Leads.trans {first second third : Moment} (hfirst : first.Leads second)
    (hsecond : second.Leads third) : first.Leads third :=
  ⟨Nat.le_trans hfirst.phase hsecond.phase, hfirst.tracker.trans hsecond.tracker⟩

theorem Leads.state_le {earlier later : Moment} (h : earlier.Leads later) :
    earlier.state ≤ later.state :=
  SenderState.of_le_of h.phase h.tracker.status

end Moment

namespace Upload

variable {σ : Type}

def moment (upload : Upload Tracker σ) (begun : List Step) : Moment :=
  { begun, phase := upload.sender.phase, tracker := upload.setting.transfer }

/-- The moments inside a step, at which the service works on its call. -/
def within (service : Service σ) (upload : Upload Tracker σ) (begun : List Step) (step : Step) :
    List Moment :=
  (upload.sends step).flatMap fun call =>
    (upload.setting.transfer.along (service.incidents upload.setting.service call)).map
      fun tracker =>
        { begun := begun ++ [step], phase := (upload.sender.after step).phase, tracker }

/-- All moments of a run that goes on from some steps. -/
def timeline (service : Service σ) (upload : Upload Tracker σ) (begun : List Step) :
    List Step → List Moment
  | [] => [upload.moment begun]
  | step :: rest =>
      upload.moment begun :: upload.within service begun step ++
        timeline service (upload.step service step).2 (begun ++ [step]) rest

theorem rank_phase_after (sender : Sender) (step : Step) :
    sender.phase.rank ≤ (sender.after step).phase.rank := by
  cases step with
  | prologue =>
      simp only [Sender.after]
      split
      · rename_i hphase
        simp [hphase, Phase.rank]
      · exact Nat.le_refl _
  | cleanup =>
      rw [Sender.phase_after_cleanup]
      cases sender.phase <;> simp [Phase.rank]
  | destinationExists | destinationLength | incident =>
      exact Nat.le_refl _

/-- The tracker after a step came from the one at the end of the step's call. -/
theorem leads_transfer_step (service : Service σ) (upload : Upload Tracker σ) (step : Step) :
    (upload.setting.heard service (upload.sends step)).Leads
      (upload.step service step).2.setting.transfer := by
  cases step with
  | prologue =>
      simp only [sends, Upload.step]
      by_cases hphase : upload.sender.phase = .constructed
      · rw [if_pos hphase, Sender.prologue_of_constructed service _ _ hphase,
          ← Sender.transfer_making]
        cases (upload.sender.making service upload.setting).1 with
        | ok done =>
            exact Tracker.Leads.refl _
        | error fault =>
            simp only [Setting.transfer_report]
            exact Tracker.leads_report _ _
      · rw [if_neg hphase, Sender.prologue_of_ne_constructed hphase]
        exact Tracker.Leads.refl _
  | cleanup =>
      simp only [sends, Upload.step, Sender.cleanup, Transfer.isDead]
      by_cases hphase : upload.sender.phase = .cleanedUp
      · simp only [hphase, if_true, ne_eq, not_true, false_and, if_false]
        exact Tracker.Leads.refl _
      · cases hdead : upload.setting.transfer.status.isDead with
        | false =>
            simp only [hphase, if_false, Bool.false_eq_true, and_false]
            exact Tracker.Leads.refl _
        | true =>
            simp only [hphase, if_false, ne_eq, not_false_eq_true, and_self, if_true]
            rw [← Target.transfer_remove]
            split
            · simp only [Setting.transfer_say]
              exact Tracker.Leads.refl _
            · exact Tracker.Leads.refl _
  | destinationExists =>
      simp only [sends, Upload.step, Sender.destinationExists]
      rw [← Target.transfer_properties]
      split
      · exact Tracker.Leads.refl _
      · split <;> exact Tracker.Leads.refl _
  | destinationLength =>
      simp only [sends, Upload.step, Sender.destinationLength]
      rw [← Target.transfer_properties]
      exact Tracker.Leads.refl _
  | incident incident =>
      simp only [sends, Upload.step, Setting.transfer_incur]
      exact Tracker.leads_incur _ _

theorem sends_eq_nil_or_singleton (upload : Upload Tracker σ) (step : Step) :
    upload.sends step = [] ∨ ∃ call, upload.sends step = [call] := by
  have hlength := length_sends_le upload step
  cases hsends : upload.sends step with
  | nil =>
      exact .inl rfl
  | cons call rest =>
      rw [hsends] at hlength
      have hrest : rest = [] := by simpa using hlength
      exact .inr ⟨call, by rw [hrest]⟩

section

variable (service : Service σ) {upload : Upload Tracker σ} {begun : List Step} {step : Step}

theorem leads_of_mem_within {moment : Moment} (h : moment ∈ upload.within service begun step) :
    (upload.moment begun).Leads moment ∧
      moment.Leads ((upload.step service step).2.moment (begun ++ [step])) := by
  have hend := leads_transfer_step service upload step
  rcases sends_eq_nil_or_singleton upload step with hsends | ⟨call, hsends⟩
  · simp [within, hsends] at h
  · simp only [within, hsends, List.flatMap_singleton, List.mem_map] at h
    obtain ⟨tracker, htracker, rfl⟩ := h
    rw [hsends] at hend
    obtain ⟨hbefore, hafter⟩ := Tracker.leads_of_mem_along htracker
    refine ⟨⟨rank_phase_after _ _, hbefore⟩, ⟨?_, hafter.trans hend⟩⟩
    simp only [moment, sender_step]
    exact Nat.le_refl _

theorem pairwise_within (upload : Upload Tracker σ) (begun : List Step) (step : Step) :
    (upload.within service begun step).Pairwise Moment.Leads := by
  rcases sends_eq_nil_or_singleton upload step with hsends | ⟨call, hsends⟩
  · simp [within, hsends]
  · simp only [within, hsends, List.flatMap_singleton, List.pairwise_map]
    exact (upload.setting.transfer.pairwise_along _).imp fun hleads => ⟨Nat.le_refl _, hleads⟩

theorem leads_step (upload : Upload Tracker σ) (begun : List Step) (step : Step) :
    (upload.moment begun).Leads ((upload.step service step).2.moment (begun ++ [step])) := by
  constructor
  · simp only [moment, sender_step]
    exact rank_phase_after _ _
  · exact (sent_step service upload step).transfer

theorem leads_of_mem_timeline {moment : Moment} {steps : List Step}
    (h : moment ∈ timeline service upload begun steps) :
    (upload.moment begun).Leads moment := by
  induction steps generalizing upload begun with
  | nil =>
      rw [List.mem_singleton.1 h]
      exact ⟨Nat.le_refl _, Tracker.Leads.refl _⟩
  | cons step rest ih =>
      rcases List.mem_append.1 h with hfirst | hrest
      · rcases List.mem_cons.1 hfirst with heq | hwithin
        · rw [heq]
          exact ⟨Nat.le_refl _, Tracker.Leads.refl _⟩
        · exact (leads_of_mem_within service hwithin).1
      · exact (leads_step service upload begun step).trans (ih hrest)

theorem pairwise_timeline (upload : Upload Tracker σ) (begun steps : List Step) :
    (timeline service upload begun steps).Pairwise Moment.Leads := by
  induction steps generalizing upload begun with
  | nil =>
      exact List.pairwise_singleton _ _
  | cons step rest ih =>
      rw [timeline, List.pairwise_append, List.pairwise_cons]
      refine ⟨⟨?_, pairwise_within service upload begun step⟩, ih _ _, ?_⟩
      · intro later hlater
        exact (leads_of_mem_within service hlater).1
      · intro earlier hearlier later hlater
        have hlate := leads_of_mem_timeline service hlater
        rcases List.mem_cons.1 hearlier with heq | hwithin
        · rw [heq]
          exact (leads_step service upload begun step).trans hlate
        · exact (leads_of_mem_within service hwithin).2.trans hlate

/-- The phase of a moment follows from the steps that have begun. -/
theorem phase_of_mem_timeline {start : Upload Tracker σ} {moment : Moment} {steps : List Step}
    (hstart : upload.sender = start.sender.afterAll begun)
    (h : moment ∈ timeline service upload begun steps) :
    moment.phase = (start.sender.afterAll moment.begun).phase := by
  induction steps generalizing upload begun with
  | nil =>
      rw [List.mem_singleton.1 h]
      exact congrArg Sender.phase hstart
  | cons step rest ih =>
      have hafter : start.sender.afterAll (begun ++ [step]) = upload.sender.after step := by
        simp [Sender.afterAll, hstart]
      rcases List.mem_append.1 h with hfirst | hrest
      · rcases List.mem_cons.1 hfirst with heq | hwithin
        · rw [heq]
          exact congrArg Sender.phase hstart
        · simp only [within, List.mem_flatMap, List.mem_map] at hwithin
          obtain ⟨call, _, tracker, _, rfl⟩ := hwithin
          rw [hafter]
      · refine ih ?_ hrest
        rw [sender_step, hafter]

end

end Upload

end LakeUpload
