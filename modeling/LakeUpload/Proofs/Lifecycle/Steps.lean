import LakeUpload.Proofs.Lifecycle.Frame
import LakeUpload.Sender.Run

/-!
# What a step sends

Each step of an upload sends at most one call, and which one it is can be read off the state before
the step. The sender after a step does not hang on what the service answers.
-/

namespace LakeUpload

/-! ## The sender -/

namespace Sender

/-- The sender after a step, whatever the service answers. -/
def after (sender : Sender) : Upload.Step → Sender
  | .prologue => if sender.phase = .constructed then sender.begun else sender
  | .cleanup => sender.cleaned
  | _ => sender

theorem cleaned_of_cleanedUp {sender : Sender} (h : sender.phase = .cleanedUp) :
    sender.cleaned = sender := by
  cases sender
  cases h
  rfl

theorem phase_after_cleanup (sender : Sender) : (sender.after .cleanup).phase = .cleanedUp := rfl

theorem phase_after_ne_constructed {sender : Sender} (h : sender.phase ≠ .constructed)
    (step : Upload.Step) : (sender.after step).phase ≠ .constructed := by
  cases step with
  | prologue =>
      simpa only [after, if_neg h] using h
  | cleanup =>
      simp [phase_after_cleanup]
  | destinationExists | destinationLength | incident =>
      exact h

theorem phase_after_cleanedUp {sender : Sender} (h : sender.phase = .cleanedUp)
    (step : Upload.Step) : (sender.after step).phase = .cleanedUp := by
  cases step with
  | prologue =>
      simp [after, h]
  | cleanup =>
      rfl
  | destinationExists | destinationLength | incident =>
      exact h

theorem phase_after_ne_cleanedUp {sender : Sender} (h : sender.phase ≠ .cleanedUp)
    {step : Upload.Step} (hstep : step ≠ .cleanup) : (sender.after step).phase ≠ .cleanedUp := by
  cases step with
  | prologue =>
      simp only [after]
      split
      · simp [begun]
      · exact h
  | cleanup =>
      exact absurd rfl hstep
  | destinationExists | destinationLength | incident =>
      exact h

theorem target_after (sender : Sender) (step : Upload.Step) :
    (sender.after step).target = sender.target := by
  cases step with
  | prologue =>
      simp only [after]
      split <;> rfl
  | cleanup | destinationExists | destinationLength | incident =>
      rfl

/-- The sender after a list of steps. -/
def afterAll (sender : Sender) (steps : List Upload.Step) : Sender := steps.foldl after sender

theorem phase_afterAll_ne_cleanedUp {sender : Sender} (h : sender.phase ≠ .cleanedUp)
    {steps : List Upload.Step} (hsteps : .cleanup ∉ steps) :
    (sender.afterAll steps).phase ≠ .cleanedUp := by
  induction steps generalizing sender with
  | nil =>
      exact h
  | cons step rest ih =>
      refine ih ?_ (List.not_mem_of_not_mem_cons hsteps)
      exact phase_after_ne_cleanedUp h (List.ne_of_not_mem_cons hsteps).symm

theorem phase_afterAll_of_cleanedUp {sender : Sender} (h : sender.phase = .cleanedUp)
    (steps : List Upload.Step) : (sender.afterAll steps).phase = .cleanedUp := by
  induction steps generalizing sender with
  | nil =>
      exact h
  | cons step rest ih =>
      exact ih (phase_after_cleanedUp h step)

theorem target_afterAll (sender : Sender) (steps : List Upload.Step) :
    (sender.afterAll steps).target = sender.target := by
  induction steps generalizing sender with
  | nil =>
      rfl
  | cons step rest ih =>
      exact (ih (sender.after step)).trans (target_after sender step)

/-- What a sender has from the offer and from what its transfer is to move. -/
structure MadeFor (offer : Offer) (info : Info) (sender : Sender) : Prop where
  config : sender.config = offer.config
  valid : offer.config.validate = .ok ()
  url : Url.parse info.destination = .ok sender.target.url
  kind : sender.target.kind = .ofEntity info.entity
  headers : ∃ properties, offer.source.answer = .ok properties ∧
    sender.headers = properties.headers

theorem MadeFor.after {offer : Offer} {info : Info} {sender : Sender}
    (h : sender.MadeFor offer info) (step : Upload.Step) :
    (sender.after step).MadeFor offer info := by
  cases step with
  | prologue =>
      simp only [Sender.after]
      split
      · exact ⟨h.config, h.valid, h.url, h.kind, h.headers⟩
      · exact h
  | cleanup =>
      exact ⟨h.config, h.valid, h.url, h.kind, h.headers⟩
  | destinationExists | destinationLength | incident =>
      exact h

theorem madeFor_of_createFrom {τ σ : Type} [Transfer τ] {offer : Offer} {target : Target}
    {plan : ChunkPlan} {s : Setting τ σ} {sender : Sender}
    (h : (createFrom offer target plan s).1 = .ok sender) :
    ∃ properties, offer.source.answer = .ok properties ∧
      sender = make offer.config target plan properties.headers := by
  unfold createFrom at h
  cases hanswer : offer.source.answer with
  | error fault =>
      simp [hanswer] at h
  | ok properties =>
      simp only [hanswer, Except.ok.injEq] at h
      exact ⟨properties, rfl, h.symm⟩

theorem resolve_ok {hasService : Bool} {destination : Bytes} {entity : Entity} {target : Target}
    (h : (Target.resolve hasService destination entity).1 = .ok target) :
    Url.parse destination = .ok target.url ∧ target.kind = .ofEntity entity := by
  unfold Target.resolve at h
  cases hasService with
  | false =>
      simp at h
  | true =>
      cases hparse : Url.parse destination with
      | error fault =>
          simp [hparse] at h
      | ok url =>
          simp only [hparse, if_true, Except.ok.injEq] at h
          subst h
          exact ⟨rfl, rfl⟩

/-- What a sender was made from. -/
theorem exists_of_create {τ σ : Type} [Transfer τ] {offer : Offer} {s : Setting τ σ}
    {sender : Sender} (h : (create offer s).1 = .ok sender) :
    ∃ target plan properties, offer.config.validate = .ok () ∧
      (Target.resolve offer.hasService (Transfer.info s.transfer).destination
        (Transfer.info s.transfer).entity).1 = .ok target ∧
      ChunkPlan.ofSource (Transfer.info s.transfer).sourceSize
        (Transfer.info s.transfer).blockSize = .ok plan ∧
      offer.source.answer = .ok properties ∧
      sender = make offer.config target plan properties.headers := by
  unfold create at h
  split at h
  · split at h
    · cases h
    · rename_i hvalid
      dsimp only at h
      split at h
      · cases h
      · rename_i target hresolve
        split at h
        · cases h
        · rename_i plan hplan
          obtain ⟨properties, hanswer, hsender⟩ := madeFor_of_createFrom h
          exact ⟨target, plan, properties, hvalid, hresolve, hplan, hanswer, hsender⟩
  · cases h

theorem madeFor_of_create {τ σ : Type} [Transfer τ] {offer : Offer} {s : Setting τ σ}
    {sender : Sender} (h : (create offer s).1 = .ok sender) :
    sender.MadeFor offer (Transfer.info s.transfer) ∧ sender.phase = .constructed := by
  obtain ⟨target, plan, properties, hvalid, hresolve, _, hanswer, rfl⟩ := exists_of_create h
  obtain ⟨hurl, hkind⟩ := resolve_ok hresolve
  exact ⟨⟨rfl, hvalid, hurl, hkind, properties, hanswer, rfl⟩, rfl⟩

end Sender

/-! ## The calls -/

namespace Upload

variable {σ : Type}

/-- The calls that a step sends, of which there is one at most. -/
def sends (upload : Upload Tracker σ) : Step → List Call
  | .prologue =>
      if upload.sender.phase = .constructed then
        upload.setting.attempt upload.setting.context
          (.create upload.sender.target.url upload.sender.target.kind.entity
            upload.sender.headers upload.setting.transfer.info.sourceSize)
      else []
  | .cleanup =>
      if upload.sender.phase ≠ .cleanedUp ∧ upload.setting.transfer.status.isDead = true then
        upload.setting.attempt (upload.sender.cleanupContext upload.setting.clock.steady)
          (.remove upload.sender.target.url upload.sender.target.kind.entity)
      else []
  | .destinationExists | .destinationLength =>
      upload.setting.attempt upload.setting.context (.properties upload.sender.target.url)
  | .incident _ => []

/-- What a step asks of the service, and under which context. -/
inductive Asks (upload : Upload Tracker σ) : Step → CallContext → Request → Prop where
  | create (hphase : upload.sender.phase = .constructed) :
      Asks upload .prologue upload.setting.context
        (.create upload.sender.target.url upload.sender.target.kind.entity
          upload.sender.headers upload.setting.transfer.info.sourceSize)
  | remove (hphase : upload.sender.phase ≠ .cleanedUp)
      (hdead : upload.setting.transfer.status.isDead = true) :
      Asks upload .cleanup (upload.sender.cleanupContext upload.setting.clock.steady)
        (.remove upload.sender.target.url upload.sender.target.kind.entity)
  | exists : Asks upload .destinationExists upload.setting.context
      (.properties upload.sender.target.url)
  | length : Asks upload .destinationLength upload.setting.context
      (.properties upload.sender.target.url)

theorem asks_of_mem_sends {upload : Upload Tracker σ} {step : Step} {call : Call}
    (h : call ∈ upload.sends step) :
    ∃ ctx request, upload.Asks step ctx request ∧
      ctx.isDone upload.setting.transfer.flags upload.setting.clock.steady = false ∧
      call = { upload.setting.arrival ctx with request } := by
  cases step with
  | prologue =>
      simp only [sends] at h
      split at h
      · rename_i hphase
        exact ⟨_, _, .create hphase, Setting.eq_of_mem_attempt h⟩
      · cases h
  | cleanup =>
      simp only [sends] at h
      split at h
      · rename_i hsend
        exact ⟨_, _, .remove hsend.1 hsend.2, Setting.eq_of_mem_attempt h⟩
      · cases h
  | destinationExists =>
      exact ⟨_, _, .exists, Setting.eq_of_mem_attempt h⟩
  | destinationLength =>
      exact ⟨_, _, .length, Setting.eq_of_mem_attempt h⟩
  | incident incident =>
      cases h

theorem length_sends_le (upload : Upload Tracker σ) (step : Step) :
    (upload.sends step).length ≤ 1 := by
  have hattempt := Setting.length_attempt_le upload.setting
  cases step with
  | prologue | cleanup =>
      simp only [sends]
      split
      · exact hattempt _ _
      · simp
  | destinationExists | destinationLength =>
      exact hattempt _ _
  | incident incident =>
      simp [sends]

theorem sender_step (service : Service σ) (upload : Upload Tracker σ) (step : Step) :
    (upload.step service step).2.sender = upload.sender.after step := by
  cases step with
  | prologue =>
      simp only [Upload.step, Sender.prologue, Sender.after]
      split
      · split <;> rfl
      · rfl
  | cleanup =>
      simp only [Upload.step, Sender.cleanup, Sender.after]
      split
      · rename_i hphase
        exact (Sender.cleaned_of_cleanedUp hphase).symm
      · split
        · split <;> rfl
        · rfl
  | destinationExists =>
      simp only [Upload.step, Sender.after]
  | destinationLength =>
      simp only [Upload.step, Sender.after]
  | incident incident =>
      rfl

theorem sender_run (service : Service σ) (upload : Upload Tracker σ) (steps : List Step) :
    (upload.run service steps).sender = upload.sender.afterAll steps := by
  induction steps generalizing upload with
  | nil =>
      rfl
  | cons step rest ih =>
      refine (ih (upload.step service step).2).trans ?_
      rw [sender_step]
      rfl

theorem sent_prologue (service : Service σ) (sender : Sender) (s : Setting Tracker σ) :
    Setting.Sent service (sends ⟨sender, s⟩ .prologue) s (sender.prologue service s).2.2 := by
  simp only [sends, Sender.prologue]
  split
  · -- the announcement changes nothing that the call hangs on
    have htold := (Setting.quiet_write s (sender.announcement s.transfer.info)).sent service
    have hcreated := htold.trans (Target.sent_create service sender.target s.context
      (s.write (sender.announcement s.transfer.info)) sender.headers s.transfer.info.sourceSize)
    split
    · exact hcreated
    · rw [← List.append_nil (Setting.attempt _ _ _)]
      exact hcreated.trans (Setting.sent_report _ _)
  · exact (Setting.Quiet.refl s).sent service

theorem sent_cleanup (service : Service σ) (sender : Sender) (s : Setting Tracker σ) :
    Setting.Sent service (sends ⟨sender, s⟩ .cleanup) s (sender.cleanup service s).2 := by
  simp only [sends, Sender.cleanup]
  by_cases hphase : sender.phase = .cleanedUp
  · simp only [hphase, if_true, ne_eq, not_true, false_and, if_false]
    exact (Setting.Quiet.refl s).sent service
  · cases hdead : s.transfer.status.isDead with
    | false =>
        simp only [hphase, if_false, Bool.false_eq_true, and_false, Transfer.isDead, hdead]
        exact (Setting.Quiet.refl s).sent service
    | true =>
        have hremoved := Target.sent_remove service sender.target
          (sender.cleanupContext s.clock.steady) s
        simp only [hphase, if_false, ne_eq, not_false_eq_true, true_and, if_true, Transfer.isDead,
          hdead]
        rw [← List.append_nil (Setting.attempt _ _ _)]
        split
        · exact hremoved.trans ((Setting.quiet_say _ _ _).sent service)
        · exact hremoved.trans ((Setting.quiet_write _ _).sent service)

theorem sent_step (service : Service σ) (upload : Upload Tracker σ) (step : Step) :
    Setting.Sent service (upload.sends step) upload.setting
      (upload.step service step).2.setting := by
  cases step with
  | prologue =>
      exact sent_prologue service upload.sender upload.setting
  | cleanup =>
      exact sent_cleanup service upload.sender upload.setting
  | destinationExists =>
      have hsent := Target.sent_properties service upload.sender.target upload.setting.context
        upload.setting
      simp only [Upload.step, Sender.destinationExists]
      split
      · exact hsent
      · split <;> exact hsent
  | destinationLength =>
      exact Target.sent_properties service upload.sender.target upload.setting.context
        upload.setting
  | incident incident =>
      exact Setting.sent_incur upload.setting incident

end Upload

end LakeUpload
