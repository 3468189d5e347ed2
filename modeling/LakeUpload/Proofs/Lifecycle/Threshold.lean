import LakeUpload.Proofs.Lifecycle.Progress

/-!
# The flush threshold

A sender keeps zero for a threshold that is not known yet. That zero is never a real threshold: a
sender is made with no block size and no multiplier of zero, and the product of two 32-bit words
fits into 64 bits. So the threshold is unknown just as long as no prologue was accepted, and from
then on it is the exact product for good.
-/

namespace LakeUpload

/-! ## The product -/

theorem toNat_mul_toUInt64 (a b : UInt32) :
    (a.toUInt64 * b.toUInt64).toNat = a.toNat * b.toNat := by
  have hproduct : a.toNat * b.toNat < 2 ^ 32 * 2 ^ 32 :=
    Nat.mul_lt_mul_of_lt_of_lt a.toNat_lt b.toNat_lt
  rw [UInt64.toNat_mul, UInt32.toNat_toUInt64, UInt32.toNat_toUInt64]
  exact Nat.mod_eq_of_lt hproduct

namespace Sender

/-! ## Senders as they are made -/

theorem planned_of_create {τ σ : Type} [Transfer τ] {offer : Offer} {s : Setting τ σ}
    {sender : Sender} (h : (create offer s).1 = .ok sender) :
    ChunkPlan.ofSource (Transfer.info s.transfer).sourceSize (Transfer.info s.transfer).blockSize =
        .ok sender.plan ∧
      sender.threshold = 0 := by
  obtain ⟨target, plan, properties, _, _, hplan, _, rfl⟩ := exists_of_create h
  exact ⟨hplan, rfl⟩

theorem toNat_flushBytes (sender : Sender) :
    sender.flushBytes.toNat =
      sender.plan.chunkSize.toNat * sender.config.flushMultiplier.toNat :=
  toNat_mul_toUInt64 _ _

/-- Plan and configuration have each ruled out a zero of their own. -/
theorem flushBytes_ne_zero {sender : Sender} {sourceSize : UInt64} {blockSize : UInt32}
    (hplan : ChunkPlan.ofSource sourceSize blockSize = .ok sender.plan)
    (hconfig : sender.config.validate = .ok ()) : sender.flushBytes ≠ 0 := by
  have hblock : sender.plan.chunkSize.toNat ≠ 0 := by
    rw [ChunkPlan.chunkSize_of_ofSource hplan]
    intro hzero
    have hfault : ChunkPlan.ofSource sourceSize blockSize = .error ChunkPlan.blockSizeZero :=
      ChunkPlan.ofSource_eq_error_iff.2 ⟨UInt32.toNat_inj.1 hzero, rfl⟩
    rw [hplan] at hfault
    cases hfault
  have hmultiplier : sender.config.flushMultiplier.toNat ≠ 0 := fun hzero =>
    (Config.validate_eq_ok_iff.1 hconfig).1 (UInt32.toNat_inj.1 hzero)
  intro hzero
  have hproduct := toNat_flushBytes sender
  rw [hzero] at hproduct
  exact Nat.mul_ne_zero hblock hmultiplier hproduct.symm

theorem flushThreshold_of_zero {sender : Sender} (h : sender.threshold = 0) :
    sender.flushThreshold = .error thresholdUnknown := by
  simp [flushThreshold, h]

theorem flushThreshold_of_ne_zero {sender : Sender} (h : sender.threshold ≠ 0) :
    sender.flushThreshold = .ok sender.threshold := by
  simp [flushThreshold, h]

theorem flushBytes_after (sender : Sender) (step : Upload.Step) :
    (sender.after step).flushBytes = sender.flushBytes := by
  cases step with
  | prologue =>
      simp only [after]
      split <;> rfl
  | cleanup | destinationExists | destinationLength | incident =>
      rfl

theorem threshold_after (sender : Sender) (step : Upload.Step) :
    (sender.after step).threshold =
      if step = .prologue ∧ sender.phase = .constructed then sender.flushBytes
      else sender.threshold := by
  cases step with
  | prologue =>
      by_cases hphase : sender.phase = .constructed <;> simp [after, hphase, begun]
  | cleanup | destinationExists | destinationLength | incident =>
      simp [after, cleaned]

end Sender

namespace Upload

variable {σ : Type} (service : Service σ)

/-! ## Accepted prologues -/

theorem not_prologueAccepted_nil (start : Upload Tracker σ) :
    ¬ start.PrologueAccepted service [] := by
  rintro ⟨first, later, outcome, hsteps, -, -⟩
  simp at hsteps

theorem prologueAccepted_cons {start : Upload Tracker σ} {step : Step} {rest : List Step} :
    start.PrologueAccepted service (step :: rest) ↔
      (step = .prologue ∧ start.sender.phase = .constructed) ∨
        (start.step service step).2.PrologueAccepted service rest := by
  constructor
  · rintro ⟨first, later, outcome, hsteps, hanswer, hmodified⟩
    cases first with
    | nil =>
        obtain ⟨rfl, rfl⟩ := List.cons.inj hsteps
        cases hanswer
        exact .inl ⟨rfl, (modified_prologue_iff service _ _).1 hmodified⟩
    | cons head front =>
        obtain ⟨rfl, rfl⟩ := List.cons.inj hsteps
        exact .inr ⟨front, later, outcome, rfl, hanswer, hmodified⟩
  · rintro (⟨rfl, hphase⟩ | ⟨front, later, outcome, rfl, hanswer, hmodified⟩)
    · exact ⟨[], rest, _, rfl, rfl, (modified_prologue_iff service _ _).2 hphase⟩
    · exact ⟨step :: front, later, outcome, rfl, hanswer, hmodified⟩

theorem prologueAccepted_append {start : Upload Tracker σ} {first : List Step}
    (h : start.PrologueAccepted service first) (later : List Step) :
    start.PrologueAccepted service (first ++ later) := by
  obtain ⟨front, rest, outcome, rfl, hanswer, hmodified⟩ := h
  exact ⟨front, rest ++ later, outcome, by simp, hanswer, hmodified⟩

theorem not_prologueAccepted_of_ne_constructed {start : Upload Tracker σ}
    (hphase : start.sender.phase ≠ .constructed) (steps : List Step) :
    ¬ start.PrologueAccepted service steps := by
  rintro ⟨first, later, outcome, -, hanswer, hmodified⟩
  cases hanswer
  rw [modified_prologue_iff, sender_run] at hmodified
  exact phase_afterAll_ne_constructed hphase first hmodified

/-- No prologue is accepted once the upload was cleaned up before any. -/
theorem not_prologueAccepted_of_cleanup {start : Upload Tracker σ} {first : List Step}
    (hfirst : .prologue ∉ first) (later : List Step) :
    ¬ start.PrologueAccepted service (first ++ .cleanup :: later) := by
  induction first generalizing start with
  | nil =>
      rw [List.nil_append, prologueAccepted_cons]
      rintro (⟨hstep, -⟩ | haccepted)
      · cases hstep
      · refine not_prologueAccepted_of_ne_constructed service ?_ later haccepted
        simp [sender_step, Sender.phase_after_cleanup]
  | cons step rest ih =>
      rw [List.cons_append, prologueAccepted_cons]
      rintro (⟨rfl, -⟩ | haccepted)
      · exact hfirst List.mem_cons_self
      · exact ih (List.not_mem_of_not_mem_cons hfirst) haccepted

/-! ## The threshold along a run -/

theorem threshold_run_of_ne_constructed {start : Upload Tracker σ}
    (hphase : start.sender.phase ≠ .constructed) (steps : List Step) :
    (start.run service steps).sender.threshold = start.sender.threshold := by
  induction steps generalizing start with
  | nil =>
      rfl
  | cons step rest ih =>
      refine (ih ?_).trans ?_
      · rw [sender_step]
        exact Sender.phase_after_ne_constructed hphase step
      · rw [sender_step, Sender.threshold_after, if_neg fun h => hphase h.2]

theorem threshold_run_of_accepted {start : Upload Tracker σ} {steps : List Step}
    (h : start.PrologueAccepted service steps) :
    (start.run service steps).sender.threshold = start.sender.flushBytes := by
  induction steps generalizing start with
  | nil =>
      exact absurd h (not_prologueAccepted_nil service start)
  | cons step rest ih =>
      rcases (prologueAccepted_cons service).1 h with ⟨rfl, hphase⟩ | hrest
      · -- from here on nothing touches the threshold any more
        have hbegun : (start.step service .prologue).2.sender = start.sender.begun := by
          rw [sender_step]
          simp [Sender.after, hphase]
        refine (threshold_run_of_ne_constructed service ?_ rest).trans ?_
        · simp [hbegun, Sender.begun]
        · rw [hbegun]
          rfl
      · refine (ih hrest).trans ?_
        rw [sender_step, Sender.flushBytes_after]

theorem threshold_run_of_not_accepted {start : Upload Tracker σ} {steps : List Step}
    (h : ¬ start.PrologueAccepted service steps) :
    (start.run service steps).sender.threshold = start.sender.threshold := by
  induction steps generalizing start with
  | nil =>
      rfl
  | cons step rest ih =>
      rw [prologueAccepted_cons, not_or] at h
      refine (ih h.2).trans ?_
      rw [sender_step, Sender.threshold_after, if_neg h.1]

/-- What the flush threshold of an upload is after some steps. -/
structure FlushesBy (start : Upload Tracker σ) (blockSize multiplier : UInt32)
    (steps : List Step) : Prop where
  unknown : (∃ fault, (start.run service steps).sender.flushThreshold = .error fault ∧
      fault.code = .invalidState) ↔
    ¬ start.PrologueAccepted service steps
  known : start.PrologueAccepted service steps →
    ∃ bytes, (start.run service steps).sender.flushThreshold = .ok bytes ∧
      bytes.toNat = blockSize.toNat * multiplier.toNat ∧ bytes.toNat ≠ 0
  /-- Whatever came of its request, the prologue settles the threshold. -/
  settled : ∀ first later, steps = first ++ .prologue :: later → .prologue ∉ first →
    .cleanup ∉ first → start.PrologueAccepted service steps
  lasting : ∀ first later, steps = first ++ later → start.PrologueAccepted service first →
    (start.run service steps).sender.flushThreshold =
      (start.run service first).sender.flushThreshold
  never : ∀ first later, steps = first ++ .cleanup :: later → .prologue ∉ first →
    (start.run service steps).sender.flushThreshold = .error Sender.thresholdUnknown

section

variable {offer : Offer} {tracker : Tracker} {start : Upload Tracker σ}

theorem Created.flushBytes (h : start.Created offer tracker) :
    start.sender.flushBytes.toNat =
        tracker.info.blockSize.toNat * offer.config.flushMultiplier.toNat ∧
      start.sender.flushBytes ≠ 0 ∧ start.sender.threshold = 0 := by
  obtain ⟨s, htransfer, _, hmade, _⟩ := h.made
  obtain ⟨hplan, hthreshold⟩ := Sender.planned_of_create hmade
  have hinfo : Transfer.info s.transfer = tracker.info := congrArg Tracker.info htransfer
  have hfor := h.kept.made
  rw [hinfo] at hplan
  refine ⟨?_, ?_, hthreshold⟩
  · rw [Sender.toNat_flushBytes, ChunkPlan.chunkSize_of_ofSource hplan, hfor.config]
  · refine Sender.flushBytes_ne_zero hplan ?_
    rw [hfor.config]
    exact hfor.valid

theorem flushThreshold_of_accepted (hstart : start.Created offer tracker) {steps : List Step}
    (h : start.PrologueAccepted service steps) :
    (start.run service steps).sender.flushThreshold = .ok start.sender.flushBytes := by
  have hthreshold := threshold_run_of_accepted service h
  rw [Sender.flushThreshold_of_ne_zero, hthreshold]
  rw [hthreshold]
  exact hstart.flushBytes.2.1

theorem flushThreshold_of_not_accepted (hstart : start.Created offer tracker) {steps : List Step}
    (h : ¬ start.PrologueAccepted service steps) :
    (start.run service steps).sender.flushThreshold = .error Sender.thresholdUnknown := by
  apply Sender.flushThreshold_of_zero
  rw [threshold_run_of_not_accepted service h]
  exact hstart.flushBytes.2.2

/-- In every run the threshold is unknown until a prologue is accepted, and from then on the exact
product of the transfer's block size and the multiplier, which is never zero. -/
theorem run_flushes_by (hstart : start.Created offer tracker) (steps : List Step) :
    FlushesBy service start tracker.info.blockSize offer.config.flushMultiplier steps := by
  constructor
  · constructor
    · rintro ⟨fault, hfault, -⟩ haccepted
      rw [flushThreshold_of_accepted service hstart haccepted] at hfault
      cases hfault
    · intro hunaccepted
      exact ⟨_, flushThreshold_of_not_accepted service hstart hunaccepted, rfl⟩
  · intro haccepted
    obtain ⟨hproduct, hnonzero, _⟩ := hstart.flushBytes
    refine ⟨_, flushThreshold_of_accepted service hstart haccepted, hproduct, ?_⟩
    exact fun hzero => hnonzero (UInt64.toNat_inj.1 hzero)
  · rintro first later rfl hprologue hcleanup
    have hfirst : start.PrologueAccepted service (first ++ [.prologue]) :=
      (prologueAccepted_iff service hstart.phase (by simp [hcleanup])).2 (by simp)
    rw [List.append_cons]
    exact prologueAccepted_append service hfirst later
  · rintro first later rfl haccepted
    rw [flushThreshold_of_accepted service hstart haccepted,
      flushThreshold_of_accepted service hstart (prologueAccepted_append service haccepted later)]
  · rintro first later rfl hprologue
    exact flushThreshold_of_not_accepted service hstart
      (not_prologueAccepted_of_cleanup service hprologue later)

theorem smallUpload_flushes_by :
    smallUpload.Created smallOffer smallTracker ∧
      FlushesBy DataLake.service smallUpload 2 7500 [.destinationExists, .prologue, .cleanup] :=
  ⟨smallUpload_created, run_flushes_by DataLake.service smallUpload_created _⟩

end

end Upload

end LakeUpload
