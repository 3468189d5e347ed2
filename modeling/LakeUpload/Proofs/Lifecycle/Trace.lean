import LakeUpload.Proofs.Lifecycle.Steps
import LakeUpload.Proofs.Lists
import LakeUpload.Remote.DataLake

/-!
# The trace of an upload

The trace of a run is put together from the calls of its steps. What a sender may still send hangs
on its phase alone, and phases only move on: that is why a destination is made once at most,
deleted once at most, and never made again once the upload was cleaned up. Every single call keeps
the rules of `Call.Lawful`.
-/

namespace LakeUpload

open Bytes (ascii)

/-! ## Kinds of calls -/

namespace Call

def isCreate (call : Call) : Bool :=
  match call.request with
  | .create _ _ _ _ => true
  | _ => false

def isRemove (call : Call) : Bool :=
  match call.request with
  | .remove _ _ => true
  | _ => false

/-- The kind of path that is asked for, where the request names one. -/
def kind? (call : Call) : Option Entity :=
  match call.request with
  | .create _ kind _ _ => some kind
  | .remove _ kind => some kind
  | .properties _ => none

/-- The rules for a single call: under which context it comes, and what it asks for. -/
structure Lawful (offer : Offer) (tracker : Tracker) (call : Call) : Prop where
  live : call.context.check call.flags call.time = .ok ()
  ofTransfer : call.isRemove = false →
    call.context.shares tracker.context = true ∧ call.context.deadline = none
  apart : call.isRemove = true → call.context.shares tracker.context = false
  url : Url.parse tracker.info.destination = .ok call.request.url
  kind : ∀ kind, call.kind? = some kind →
    kind = if tracker.info.entity = .folder then .folder else .file
  created : ∀ url kind headers length, call.request = .create url kind headers length →
    length = tracker.info.sourceSize ∧
      ∃ properties, offer.source.answer = .ok properties ∧ headers = properties.headers

end Call

namespace Upload

variable {σ : Type}

/-- The calls of a run. -/
def trace (service : Service σ) (upload : Upload Tracker σ) : List Step → List Call
  | [] => []
  | step :: rest => upload.sends step ++ trace service (upload.step service step).2 rest

theorem sent_run (service : Service σ) (upload : Upload Tracker σ) (steps : List Step) :
    Setting.Sent service (trace service upload steps) upload.setting
      (upload.run service steps).setting := by
  induction steps generalizing upload with
  | nil =>
      exact (Setting.Quiet.refl upload.setting).sent service
  | cons step rest ih =>
      exact (sent_step service upload step).trans (ih (upload.step service step).2)

/-! ## Calls that come once -/

/-- Calls that are shut out by some phases for good, and that bring such a phase about. -/
structure Once (σ : Type) (p : Call → Bool) (shut : Phase → Prop) : Prop where
  stays : ∀ (sender : Sender) (step : Step), shut sender.phase → shut (sender.after step).phase
  out : ∀ (upload : Upload Tracker σ) (step : Step), shut upload.sender.phase →
    ∀ call ∈ upload.sends step, p call = false
  shuts : ∀ (upload : Upload Tracker σ) (step : Step), ∀ call ∈ upload.sends step,
    p call = true → shut (upload.sender.after step).phase

section

variable {p : Call → Bool} {shut : Phase → Prop}

theorem Once.not_in_trace (h : Once σ p shut) (service : Service σ) {upload : Upload Tracker σ}
    (hshut : shut upload.sender.phase) (steps : List Step) :
    ∀ call ∈ trace service upload steps, p call = false := by
  induction steps generalizing upload with
  | nil =>
      intro call hcall
      cases hcall
  | cons step rest ih =>
      intro call hcall
      rcases List.mem_append.1 hcall with hfirst | hrest
      · exact h.out upload step hshut call hfirst
      · refine ih ?_ call hrest
        rw [sender_step]
        exact h.stays _ step hshut

theorem Once.countP_trace_le (h : Once σ p shut) (service : Service σ)
    (upload : Upload Tracker σ) (steps : List Step) :
    (trace service upload steps).countP p ≤ 1 := by
  induction steps generalizing upload with
  | nil =>
      simp [trace]
  | cons step rest ih =>
      rw [trace, List.countP_append]
      by_cases hany : ∃ call ∈ upload.sends step, p call = true
      · -- the first such call shuts out all later ones
        obtain ⟨call, hcall, hp⟩ := hany
        have hshut := h.shuts upload step call hcall hp
        rw [← sender_step service] at hshut
        have hrest := List.countP_eq_zero.2 fun later hlater =>
          Bool.eq_false_iff.1 (h.not_in_trace service hshut rest later hlater)
        have hfirst := List.countP_le_length (p := p) (l := upload.sends step)
        have hlength := length_sends_le upload step
        omega
      · have hfirst : (upload.sends step).countP p = 0 :=
          List.countP_eq_zero.2 fun call hcall hp => hany ⟨call, hcall, hp⟩
        have hrest := ih (upload.step service step).2
        omega

end

theorem once_create : Once σ Call.isCreate (· ≠ .constructed) where
  stays _ step hshut := Sender.phase_after_ne_constructed hshut step
  out upload step hshut call hcall := by
    obtain ⟨ctx, request, hasks, _, rfl⟩ := asks_of_mem_sends hcall
    cases hasks with
    | create hphase =>
        exact absurd hphase hshut
    | remove | «exists» | length =>
        rfl
  shuts upload step call hcall hcreate := by
    obtain ⟨ctx, request, hasks, _, rfl⟩ := asks_of_mem_sends hcall
    cases hasks with
    | create hphase =>
        simp [Sender.after, hphase, Sender.begun]
    | remove | «exists» | length =>
        cases hcreate

theorem once_remove : Once σ Call.isRemove (· = .cleanedUp) where
  stays _ step hshut := Sender.phase_after_cleanedUp hshut step
  out upload step hshut call hcall := by
    obtain ⟨ctx, request, hasks, _, rfl⟩ := asks_of_mem_sends hcall
    cases hasks with
    | remove hphase =>
        exact absurd hshut hphase
    | create | «exists» | length =>
        rfl
  shuts upload step call hcall hremove := by
    obtain ⟨ctx, request, hasks, _, rfl⟩ := asks_of_mem_sends hcall
    cases hasks with
    | remove =>
        exact Sender.phase_after_cleanup _
    | create | «exists» | length =>
        cases hremove

/-- A destination that was deleted is not made again. -/
theorem trace_ordered (service : Service σ) (upload : Upload Tracker σ) (steps : List Step) :
    (trace service upload steps).Pairwise fun earlier later =>
      earlier.isRemove = true → later.isCreate = false := by
  induction steps generalizing upload with
  | nil =>
      exact List.Pairwise.nil
  | cons step rest ih =>
      rw [trace, List.pairwise_append]
      refine ⟨?_, ih _, ?_⟩
      · exact Lists.pairwise_of_length_le (length_sends_le upload step)
      · intro earlier hearlier later hlater hremove
        have hphase := once_remove.shuts upload step earlier hearlier hremove
        rw [← sender_step service] at hphase
        exact once_create.not_in_trace service (by simp [hphase]) rest later hlater

/-! ## Uploads from their creation on -/

/-- The upload stands where its sender has just been made, and nothing was sent yet. The tracker
may have been told something before. -/
structure Created (offer : Offer) (tracker : Tracker) (upload : Upload Tracker σ) : Prop where
  reached : tracker.Reached
  made : ∃ s : Setting Tracker σ, s.transfer = tracker ∧ s.calls = [] ∧
    (Sender.create offer s).1 = .ok upload.sender ∧ (Sender.create offer s).2 = upload.setting

/-- What stays true of an upload whatever is done to it. -/
structure Kept (offer : Offer) (tracker : Tracker) (upload : Upload Tracker σ) : Prop where
  reached : upload.setting.transfer.Reached
  info : upload.setting.transfer.info = tracker.info
  context : upload.setting.transfer.context = tracker.context
  made : upload.sender.MadeFor offer tracker.info

variable {offer : Offer} {tracker : Tracker} {upload : Upload Tracker σ}

theorem Created.setting_eq (h : upload.Created offer tracker) :
    upload.setting.transfer = tracker ∧ upload.setting.calls = [] := by
  obtain ⟨s, htransfer, hcalls, _, hsetting⟩ := h.made
  have hquiet := Setting.quiet_create offer s
  rw [hsetting] at hquiet
  rw [hquiet]
  exact ⟨htransfer, hcalls⟩

theorem Created.phase (h : upload.Created offer tracker) :
    upload.sender.phase = .constructed := by
  obtain ⟨s, _, _, hmade, _⟩ := h.made
  exact (Sender.madeFor_of_create hmade).2

theorem Created.kept (h : upload.Created offer tracker) : upload.Kept offer tracker := by
  obtain ⟨htransfer, _⟩ := h.setting_eq
  obtain ⟨s, hs, _, hmade, _⟩ := h.made
  have hfor := (Sender.madeFor_of_create hmade).1
  rw [show Transfer.info s.transfer = tracker.info from congrArg Tracker.info hs] at hfor
  exact ⟨htransfer ▸ h.reached, congrArg _ htransfer, congrArg _ htransfer, hfor⟩

theorem Kept.step (h : upload.Kept offer tracker) (service : Service σ) (step : Step) :
    (upload.step service step).2.Kept offer tracker := by
  obtain ⟨verdicts, htransfer⟩ := (sent_step service upload step).transfer
  constructor
  · rw [htransfer]
    exact h.reached.run verdicts
  · rw [htransfer, Tracker.info_run, h.info]
  · rw [htransfer, Tracker.context_run, h.context]
  · rw [sender_step]
    exact h.made.after step

theorem Kept.run (h : upload.Kept offer tracker) (service : Service σ) (steps : List Step) :
    (upload.run service steps).Kept offer tracker := by
  induction steps generalizing upload with
  | nil =>
      exact h
  | cons step rest ih =>
      exact ih (h.step service step)

theorem entity_ofEntity (entity : Entity) :
    (TargetKind.ofEntity entity).entity = if entity = .folder then .folder else .file := by
  cases entity <;> rfl

theorem Kept.shares_context (h : upload.Kept offer tracker) :
    upload.setting.context.shares tracker.context = true ∧
      upload.setting.context.deadline = none := by
  have hcontext : upload.setting.context = { flag := some ⟨0⟩ } := h.reached.context
  rw [← h.context, h.reached.context, hcontext]
  exact ⟨rfl, rfl⟩

theorem Kept.lawful_of_mem_sends (h : upload.Kept offer tracker) {step : Step} {call : Call}
    (hcall : call ∈ upload.sends step) : call.Lawful offer tracker := by
  obtain ⟨ctx, request, hasks, hlive, rfl⟩ := asks_of_mem_sends hcall
  have hcheck := CallContext.check_eq_ok_iff.2 hlive
  have hkind : upload.sender.target.kind.entity =
      if tracker.info.entity = .folder then .folder else .file := by
    rw [h.made.kind, entity_ofEntity]
  cases hasks with
  | create =>
      refine ⟨hcheck, fun _ => h.shares_context, nofun, h.made.url, ?_, ?_⟩
      · rintro kind ⟨⟩
        exact hkind
      · rintro url kind headers length ⟨⟩
        exact ⟨congrArg Info.sourceSize h.info, h.made.headers⟩
  | remove =>
      refine ⟨hcheck, nofun, fun _ => rfl, h.made.url, ?_, nofun⟩
      rintro kind ⟨⟩
      exact hkind
  | «exists» | length =>
      exact ⟨hcheck, fun _ => h.shares_context, nofun, h.made.url, nofun, nofun⟩

theorem Kept.lawful_of_mem_trace (h : upload.Kept offer tracker) (service : Service σ)
    (steps : List Step) :
    ∀ call ∈ trace service upload steps, call.Lawful offer tracker := by
  induction steps generalizing upload with
  | nil =>
      intro call hcall
      cases hcall
  | cons step rest ih =>
      intro call hcall
      rcases List.mem_append.1 hcall with hfirst | hrest
      · exact h.lawful_of_mem_sends hfirst
      · exact ih (h.step service step) call hrest

/-! ## A small upload -/

def smallHeaders : Headers := { contentType := ascii "text/plain" }

def smallOffer : Offer := { source := { answer := .ok { headers := smallHeaders } } }

def smallTracker : Tracker :=
  .start { destination := ascii "HTTP://Lake//fs/a/", sourceSize := 5, blockSize := 2 } .info

/-- A lake during whose work on a request for a new path the upload is cancelled. -/
def smallLake : DataLake := { onCreate := { incidents := [.pass 7, .report .cancelled] } }

def smallSetting : Setting Tracker DataLake :=
  { clock := {}, logger := {}, transfer := smallTracker, service := smallLake }

def smallUpload : Upload Tracker DataLake :=
  { sender :=
      { target :=
          { kind := .file
            url :=
              { scheme := .http
                host := ascii "lake"
                filesystem := ascii "fs"
                path := ascii "a" } }
        plan := { chunkSize := 2, count := 3 }
        headers := smallHeaders
        config := {} }
    setting := (Sender.create smallOffer smallSetting).2 }

theorem smallUpload_created : smallUpload.Created smallOffer smallTracker :=
  ⟨⟨_, _, [], rfl⟩, smallSetting, rfl, rfl, by rfl, rfl⟩

/-! ## All calls of a run -/

/-- The rules for all calls of a run together. -/
structure LawfulCalls (offer : Offer) (tracker : Tracker) (calls : List Call) : Prop where
  createdOnce : calls.countP Call.isCreate ≤ 1
  removedOnce : calls.countP Call.isRemove ≤ 1
  ordered : calls.Pairwise fun earlier later =>
    earlier.isRemove = true → later.isCreate = false
  each : ∀ call ∈ calls, call.Lawful offer tracker

/-- Whatever the service does and in whatever order the steps come, the calls that reach the
service keep the rules, and no destination is made once the cleanup was asked for. -/
theorem run_calls_lawful (service : Service σ) {start : Upload Tracker σ}
    (hstart : start.Created offer tracker) (steps : List Step) :
    LawfulCalls offer tracker (start.run service steps).setting.calls ∧
      ∀ first later, steps = first ++ .cleanup :: later →
        ∃ rest, (start.run service steps).setting.calls =
            (start.run service first).setting.calls ++ rest ∧
          ∀ call ∈ rest, call.isCreate = false := by
  have hcalls : (start.run service steps).setting.calls = trace service start steps := by
    rw [(sent_run service start steps).calls, hstart.setting_eq.2, List.nil_append]
  constructor
  · rw [hcalls]
    exact ⟨once_create.countP_trace_le service start steps,
      once_remove.countP_trace_le service start steps, trace_ordered service start steps,
      hstart.kept.lawful_of_mem_trace service steps⟩
  · rintro first later rfl
    let middle := start.run service first
    refine ⟨trace service middle (.cleanup :: later), ?_, ?_⟩
    · rw [run_append]
      exact (sent_run service middle (.cleanup :: later)).calls
    · intro call hcall
      rcases List.mem_append.1 hcall with hfirst | hrest
      · obtain ⟨ctx, request, hasks, _, rfl⟩ := asks_of_mem_sends hfirst
        cases hasks
        rfl
      · refine once_create.not_in_trace service ?_ later call hrest
        rw [sender_step]
        simp [Sender.phase_after_cleanup]

theorem smallUpload_calls_lawful :
    smallUpload.Created smallOffer smallTracker ∧
      LawfulCalls smallOffer smallTracker
        (smallUpload.run DataLake.service [.prologue, .cleanup, .prologue]).setting.calls :=
  ⟨smallUpload_created, (run_calls_lawful DataLake.service smallUpload_created _).1⟩

example : (smallUpload.run DataLake.service
    [.prologue, .cleanup, .prologue]).setting.calls.map Call.isRemove = [false, true] := by
  decide +kernel

end Upload

end LakeUpload
