import LakeUpload.Proofs.Lifecycle.Timeline

/-!
# How an upload moves on

Along the timeline of a run the reported state only moves forward, and the steps that have begun
tell where it stands: it is cleaned up from the first cleanup on, and constructed until a prologue
is accepted. A destination that could not be made leaves the upload failed.
-/

namespace LakeUpload

namespace Upload

variable {σ : Type}

/-! ## Which steps a state stands for -/

theorem phase_afterAll_eq_cleanedUp_iff {sender : Sender} (h : sender.phase ≠ .cleanedUp)
    {steps : List Step} : (sender.afterAll steps).phase = .cleanedUp ↔ .cleanup ∈ steps := by
  constructor
  · intro hcleaned
    exact Classical.byContradiction fun hsteps =>
      Sender.phase_afterAll_ne_cleanedUp h hsteps hcleaned
  · intro hsteps
    obtain ⟨first, later, rfl⟩ := List.append_of_mem hsteps
    have hcleanup := Sender.phase_after_cleanup (sender.afterAll first)
    have hlater := Sender.phase_afterAll_of_cleanedUp hcleanup later
    simpa [Sender.afterAll] using hlater

theorem phase_afterAll_ne_constructed {sender : Sender} (h : sender.phase ≠ .constructed)
    (steps : List Step) : (sender.afterAll steps).phase ≠ .constructed := by
  induction steps generalizing sender with
  | nil =>
      exact h
  | cons step rest ih =>
      exact ih (Sender.phase_after_ne_constructed h step)

theorem phase_afterAll_eq_constructed_iff {sender : Sender} (h : sender.phase = .constructed)
    {steps : List Step} :
    (sender.afterAll steps).phase = .constructed ↔ .prologue ∉ steps ∧ .cleanup ∉ steps := by
  induction steps generalizing sender with
  | nil =>
      simpa [Sender.afterAll] using h
  | cons step rest ih =>
      have hcons : sender.afterAll (step :: rest) = (sender.after step).afterAll rest := rfl
      rw [hcons]
      cases step with
      | prologue =>
          have hphase : (sender.after .prologue).phase ≠ .constructed := by
            simp [Sender.after, h, Sender.begun]
          simpa using phase_afterAll_ne_constructed hphase rest
      | cleanup =>
          have hphase : (sender.after .cleanup).phase ≠ .constructed := by
            simp [Sender.phase_after_cleanup]
          simpa using phase_afterAll_ne_constructed hphase rest
      | destinationExists | destinationLength | incident =>
          simpa [Sender.after] using ih h

/-- Some prologue among the steps was accepted. -/
def PrologueAccepted (service : Service σ) (start : Upload Tracker σ) (steps : List Step) : Prop :=
  ∃ first later outcome, steps = first ++ .prologue :: later ∧
    ((start.run service first).step service .prologue).1 = .outcome outcome ∧
    outcome.modified = true

theorem modified_prologue_iff (service : Service σ) (sender : Sender) (s : Setting Tracker σ) :
    (sender.prologue service s).1.modified = true ↔ sender.phase = .constructed := by
  by_cases hphase : sender.phase = .constructed
  · rw [Sender.prologue_of_constructed service sender s hphase]
    split <;> simp [hphase]
  · simp [Sender.prologue_of_ne_constructed hphase, hphase]

/-- A first prologue is accepted unless a cleanup came before it. -/
theorem prologueAccepted_iff (service : Service σ) {start : Upload Tracker σ}
    (hphase : start.sender.phase = .constructed) {steps : List Step} (hsteps : .cleanup ∉ steps) :
    start.PrologueAccepted service steps ↔ .prologue ∈ steps := by
  constructor
  · rintro ⟨first, later, outcome, rfl, -, -⟩
    simp
  · intro hmem
    obtain ⟨first, later, rfl, hfirst⟩ := List.eq_append_cons_of_mem hmem
    refine ⟨first, later, _, rfl, rfl, ?_⟩
    rw [modified_prologue_iff, sender_run]
    refine (phase_afterAll_eq_constructed_iff hphase).2 ⟨hfirst, ?_⟩
    exact fun hcleanup => hsteps (List.mem_append_left _ hcleanup)

theorem state_moment (upload : Upload Tracker σ) (begun : List Step) :
    (upload.moment begun).state = upload.state := rfl

/-- An upload whose destination could not be made has failed, unless its transfer was done. -/
theorem state_step_prologue_of_fault (service : Service σ) {upload : Upload Tracker σ}
    (hreached : upload.setting.transfer.Reached) {fault : Fault}
    (hanswer : (upload.step service .prologue).1 =
      .outcome { modified := true, fault := some fault })
    (hundone : (upload.sender.making service upload.setting).2.transfer.status ≠ .succeeded) :
    (upload.step service .prologue).2.state = .failed := by
  have hphase : upload.sender.phase = .constructed := by
    rw [← modified_prologue_iff service upload.sender upload.setting]
    exact congrArg Outcome.modified (Answer.outcome.inj hanswer)
  have hmade := hreached.of_leads (Sender.leads_making service upload.sender upload.setting)
  simp only [Upload.step, Sender.prologue_of_constructed service _ _ hphase] at hanswer ⊢
  cases hmaking : (upload.sender.making service upload.setting).1 with
  | ok done =>
      simp [hmaking] at hanswer
  | error fault =>
      have hdead := hmade.isDead_report_failed hundone Sender.creatingStage fault
      rw [← Setting.transfer_report] at hdead
      simp only [state, Sender.state, Sender.begun, Transfer.status]
      exact SenderState.of_prologued_of_isDead hdead

/-- What the timeline of a run says. -/
structure MovesForward (service : Service σ) (start : Upload Tracker σ) (steps : List Step) :
    Prop where
  /-- Every state between two steps is on the timeline, with the steps before it. -/
  complete : ∀ first later, steps = first ++ later →
    (start.run service first).moment first ∈ timeline service start [] steps
  forward : ((timeline service start [] steps).map Moment.state).Pairwise (· ≤ ·)
  cleanedUp : ∀ moment ∈ timeline service start [] steps,
    moment.state = .cleanedUp ↔ .cleanup ∈ moment.begun
  constructed : ∀ moment ∈ timeline service start [] steps,
    moment.state = .constructed ↔
      .cleanup ∉ moment.begun ∧ ¬ start.PrologueAccepted service moment.begun
  failed : ∀ first later fault, steps = first ++ .prologue :: later →
    let before := start.run service first
    (before.step service .prologue).1 = .outcome { modified := true, fault := some fault } →
    (before.sender.making service before.setting).2.transfer.status ≠ .succeeded →
    ∀ moment ∈ timeline service (before.step service .prologue).2 (first ++ [.prologue]) later,
      .cleanup ∉ moment.begun → moment.state = .failed

theorem moment_mem_timeline (service : Service σ) (upload : Upload Tracker σ)
    (begun first later : List Step) :
    (upload.run service first).moment (begun ++ first) ∈
      timeline service upload begun (first ++ later) := by
  induction first generalizing upload begun with
  | nil =>
      rw [List.append_nil, List.nil_append]
      cases later <;> simp [timeline, run]
  | cons step rest ih =>
      have hrest := ih (upload.step service step).2 (begun ++ [step])
      rw [List.append_assoc, List.singleton_append] at hrest
      exact List.mem_append_right _ hrest

section

variable {offer : Offer} {tracker : Tracker} {start : Upload Tracker σ}

theorem state_eq_cleanedUp_iff (service : Service σ) (hphase : start.sender.phase = .constructed)
    {upload : Upload Tracker σ} {begun steps : List Step}
    (hupload : upload.sender = start.sender.afterAll begun) {moment : Moment}
    (hmoment : moment ∈ timeline service upload begun steps) :
    moment.state = .cleanedUp ↔ .cleanup ∈ moment.begun := by
  rw [Moment.state, SenderState.of_eq_cleanedUp_iff,
    phase_of_mem_timeline service hupload hmoment,
    phase_afterAll_eq_cleanedUp_iff (by simp [hphase])]

theorem state_eq_constructed_iff (service : Service σ)
    (hphase : start.sender.phase = .constructed) {steps : List Step} {moment : Moment}
    (hmoment : moment ∈ timeline service start [] steps) :
    moment.state = .constructed ↔
      .cleanup ∉ moment.begun ∧ ¬ start.PrologueAccepted service moment.begun := by
  rw [Moment.state, SenderState.of_eq_constructed_iff,
    phase_of_mem_timeline service rfl hmoment, phase_afterAll_eq_constructed_iff hphase, and_comm]
  refine and_congr_right fun hcleanup => ?_
  rw [prologueAccepted_iff service hphase hcleanup]

/-- In whatever order the steps come, and whatever happens while the service works on a call, the
reported state never goes back, and the steps that have begun tell where it stands. -/
theorem run_moves_forward (service : Service σ) (hstart : start.Created offer tracker)
    (steps : List Step) : MovesForward service start steps := by
  constructor
  · rintro first later rfl
    exact moment_mem_timeline service start [] first later
  · rw [List.pairwise_map]
    exact (pairwise_timeline service start [] steps).imp Moment.Leads.state_le
  · intro moment hmoment
    exact state_eq_cleanedUp_iff service hstart.phase rfl hmoment
  · intro moment hmoment
    exact state_eq_constructed_iff service hstart.phase hmoment
  · intro first later fault hsteps before hanswer hundone moment hmoment hcleanup
    have hafter : (before.step service .prologue).2.sender =
        start.sender.afterAll (first ++ [.prologue]) := by
      simp [before, sender_step, sender_run, Sender.afterAll]
    have hfailed : (before.step service .prologue).2.state = .failed :=
      state_step_prologue_of_fault service (hstart.kept.run service first).reached hanswer hundone
    have hle := (leads_of_mem_timeline service hmoment).state_le
    rw [state_moment, hfailed] at hle
    rcases SenderState.le_failed_iff.1 hle with hsame | hcleaned
    · exact hsame
    · exact absurd ((state_eq_cleanedUp_iff service hstart.phase hafter hmoment).1 hcleaned)
        hcleanup

end

theorem smallUpload_moves_forward :
    smallUpload.Created smallOffer smallTracker ∧
      MovesForward DataLake.service smallUpload [.prologue, .destinationExists, .cleanup] :=
  ⟨smallUpload_created, run_moves_forward DataLake.service smallUpload_created _⟩

/-- The cancellation of the small upload shows while its destination is still being made. -/
example : (timeline DataLake.service smallUpload [] [.prologue, .cleanup]).map Moment.state =
    [.constructed, .prologued, .prologued, .failed, .failed, .cleanedUp, .cleanedUp] := by
  decide +kernel

end Upload

end LakeUpload
