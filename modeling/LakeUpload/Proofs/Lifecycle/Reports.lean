import LakeUpload.Transfer.Tracker

/-!
# Trackers under reports

A tracker is only ever reached by reports from one that has just started. All that is known of it
follows from that: its contexts watch a flag of its own, that flag is up exactly when the tracker
is dead, and no report changes a tracker that has come to its end.
-/

namespace LakeUpload

namespace Tracker

/-- The tracker after a list of reports. -/
def run (tracker : Tracker) (verdicts : List Verdict) : Tracker :=
  verdicts.foldl (fun tracker verdict => (tracker.report verdict).transfer) tracker

theorem run_append (tracker : Tracker) (first second : List Verdict) :
    tracker.run (first ++ second) = (tracker.run first).run second := by
  simp [run]

theorem run_of_ne_started {tracker : Tracker} (h : tracker.status ≠ .started)
    (verdicts : List Verdict) : tracker.run verdicts = tracker := by
  induction verdicts with
  | nil =>
      rfl
  | cons verdict rest ih =>
      have hfirst : (tracker.report verdict).transfer = tracker := by
        rw [report_of_ne_started h]
      simpa [run, hfirst] using ih

theorem run_of_isDead {tracker : Tracker} (h : tracker.status.isDead = true)
    (verdicts : List Verdict) : tracker.run verdicts = tracker := by
  apply run_of_ne_started
  intro hstarted
  simp [hstarted, Status.isDead] at h

theorem info_run (tracker : Tracker) (verdicts : List Verdict) :
    (tracker.run verdicts).info = tracker.info := by
  induction verdicts generalizing tracker with
  | nil =>
      rfl
  | cons verdict rest ih =>
      exact (ih (tracker.report verdict).transfer).trans (info_report tracker verdict)

theorem context_run (tracker : Tracker) (verdicts : List Verdict) :
    (tracker.run verdicts).context = tracker.context := by
  induction verdicts generalizing tracker with
  | nil =>
      rfl
  | cons verdict rest ih =>
      have hfirst : (tracker.report verdict).transfer.context = tracker.context := by
        simp only [context, source_report]
      exact (ih (tracker.report verdict).transfer).trans hfirst

/-! ## Reached trackers -/

/-- A tracker that may have been told something since it started. -/
def Reached (tracker : Tracker) : Prop :=
  ∃ info minLevel verdicts, tracker = (start info minLevel).run verdicts

theorem Reached.run {tracker : Tracker} (h : tracker.Reached) (verdicts : List Verdict) :
    (tracker.run verdicts).Reached := by
  obtain ⟨info, minLevel, before, rfl⟩ := h
  exact ⟨info, minLevel, before ++ verdicts, (run_append _ _ _).symm⟩

/-- The one flag that a tracker makes, and what it says. -/
structure OwnFlag (tracker : Tracker) : Prop where
  source : tracker.source.flag = some ⟨0⟩
  has : tracker.flags.has ⟨0⟩
  isRaised : tracker.flags.isRaised ⟨0⟩ = tracker.status.isDead

theorem ownFlag_start (info : Info) (minLevel : Log.Level) :
    (start info minLevel).OwnFlag := by
  refine ⟨rfl, ?_, rfl⟩
  show 0 < 1
  omega

theorem OwnFlag.report {tracker : Tracker} (h : tracker.OwnFlag) (verdict : Verdict) :
    (tracker.report verdict).transfer.OwnFlag := by
  by_cases hstarted : tracker.status = .started
  · have hdown : tracker.flags.isRaised ⟨0⟩ = false := by
      rw [h.isRaised, hstarted]
      rfl
    have hcancel : tracker.source.cancel tracker.flags = tracker.flags.raise ⟨0⟩ := by
      simp [CancelSource.cancel, h.source]
    have hup := Flags.isRaised_raise_self h.has
    have hhas : (tracker.flags.raise ⟨0⟩).has ⟨0⟩ := by
      have hlen := h.has
      simpa [Flags.has, Flags.raise] using hlen
    cases verdict with
    | failed stage fault =>
        simp only [Tracker.report, hstarted, if_true, endOf, Status.isDead, hcancel]
        exact ⟨h.source, hhas, hup⟩
    | cancelled =>
        simp only [Tracker.report, hstarted, if_true, endOf, Status.isDead, hcancel]
        exact ⟨h.source, hhas, hup⟩
    | succeeded =>
        simp only [Tracker.report, hstarted, if_true, endOf, Status.isDead]
        exact ⟨h.source, h.has, hdown⟩
  · rw [report_of_ne_started hstarted]
    exact h

theorem OwnFlag.run {tracker : Tracker} (h : tracker.OwnFlag) (verdicts : List Verdict) :
    (tracker.run verdicts).OwnFlag := by
  induction verdicts generalizing tracker with
  | nil =>
      exact h
  | cons verdict rest ih =>
      exact ih (h.report verdict)

theorem Reached.ownFlag {tracker : Tracker} (h : tracker.Reached) : tracker.OwnFlag := by
  obtain ⟨info, minLevel, verdicts, rfl⟩ := h
  exact (ownFlag_start info minLevel).run verdicts

theorem Reached.context {tracker : Tracker} (h : tracker.Reached) :
    tracker.context = { flag := some ⟨0⟩ } := by
  simp [Tracker.context, CancelSource.context, h.ownFlag.source]

/-- The contexts of a tracker are cancelled exactly when it is dead. -/
theorem Reached.isCancelled {tracker : Tracker} (h : tracker.Reached) :
    tracker.context.isCancelled tracker.flags = tracker.status.isDead := by
  rw [h.context]
  exact h.ownFlag.isRaised

end Tracker

end LakeUpload
