import LakeUpload.Proofs.Lifecycle.Deletion

/-!
# What an upload does to a lake

The lake is the service here, and every step comes with a script of its own: what happens while
the lake works on a request, and whether it answers with a fault instead. Calls that ask for the
properties of a path leave the lake alone, so the entry of the destination hangs on the one
request that makes it and on the one that deletes it.
-/

namespace LakeUpload

namespace DataLake

/-- The lake with a script for whatever is asked of it next. -/
def armed (lake : DataLake) (script : Script) : DataLake :=
  { lake with
    onCreate := script
    onRemove := script
    onProperties := script }

theorem get?_put_self (lake : DataLake) (key : Bytes) (properties : Properties) :
    (lake.put key properties).get? key = some properties :=
  lookup_insert_self key properties lake.paths

theorem get?_put_of_ne {key other : Bytes} (hne : other ≠ key) (lake : DataLake)
    (properties : Properties) : (lake.put key properties).get? other = lake.get? other :=
  lookup_insert_of_ne hne properties lake.paths

theorem get?_drop_self (lake : DataLake) (key : Bytes) : (lake.drop key).get? key = none :=
  lookup_erase_self key lake.paths

theorem get?_drop_of_ne {key other : Bytes} (hne : other ≠ key) (lake : DataLake) :
    (lake.drop key).get? other = lake.get? other :=
  lookup_erase_of_ne hne lake.paths

theorem state_react {α : Type} (lake : DataLake) (script : Script)
    (work : Except Fault α × DataLake) :
    (lake.react script work).state = if script.fault.isSome then lake else work.2 := by
  unfold react
  cases script.fault <;> rfl

theorem answer_react_ok {α : Type} {lake : DataLake} {script : Script}
    {work : Except Fault α × DataLake} {a : α}
    (h : (lake.react script work).answer = .ok a) : script.fault = none := by
  unfold react at h
  cases hfault : script.fault with
  | none =>
      rfl
  | some fault =>
      simp [hfault] at h

/-! ## Single calls -/

/-- A call touches no other path than the one that it names. -/
theorem get?_after_of_ne (lake : DataLake) (call : Call) {other : Bytes}
    (hne : other ≠ call.request.url.toText) :
    (service.after lake call).get? other = lake.get? other := by
  obtain ⟨arrival, request⟩ := call
  cases request with
  | create url kind headers length =>
      simp only [Service.after, service, state_react]
      split
      · rfl
      · exact get?_put_of_ne hne lake _
  | remove url kind =>
      simp only [Service.after, service, state_react]
      split
      · rfl
      · split
        · rfl
        · exact get?_drop_of_ne hne lake
  | properties url =>
      simp only [Service.after, service, state_react]
      split
      · rfl
      · split <;> rfl

/-- Only requests that make or delete a path change anything. -/
theorem after_of_question (lake : DataLake) {call : Call} (hcreate : call.isCreate = false)
    (hremove : call.isRemove = false) : service.after lake call = lake := by
  obtain ⟨arrival, request⟩ := call
  cases request with
  | create url kind headers length =>
      cases hcreate
  | remove url kind =>
      cases hremove
  | properties url =>
      simp only [Service.after, service, state_react]
      split
      · rfl
      · split <;> rfl

theorem get?_after_create {lake : DataLake} (hfault : lake.onCreate.fault = none)
    (arrival : Arrival) (url : Url) (kind : Entity) (headers : Headers) (length : UInt64) :
    (service.after lake { arrival with request := .create url kind headers length }).get?
      url.toText = some (created kind headers length) := by
  simp only [Service.after, service, state_react, hfault, Option.isSome_none,
    Bool.false_eq_true, if_false]
  exact get?_put_self lake _ _

theorem get?_after_remove {lake : DataLake} (hfault : lake.onRemove.fault = none)
    (arrival : Arrival) (url : Url) (kind : Entity) :
    (service.after lake { arrival with request := .remove url kind }).get? url.toText = none := by
  simp only [Service.after, service, state_react, hfault, Option.isSome_none,
    Bool.false_eq_true, if_false]
  split
  · assumption
  · exact get?_drop_self lake _

/-! ## Lists of calls -/

theorem get?_foldl_after_of_ne {other : Bytes} {calls : List Call}
    (hne : ∀ call ∈ calls, other ≠ call.request.url.toText) (lake : DataLake) :
    (calls.foldl service.after lake).get? other = lake.get? other := by
  induction calls generalizing lake with
  | nil =>
      rfl
  | cons call rest ih =>
      have hrest : ∀ later ∈ rest, other ≠ later.request.url.toText := fun later hlater =>
        hne later (List.mem_cons_of_mem _ hlater)
      rw [List.foldl_cons, ih hrest, get?_after_of_ne lake call (hne call List.mem_cons_self)]

theorem foldl_after_of_questions {calls : List Call}
    (hcalls : ∀ call ∈ calls, call.isCreate = false ∧ call.isRemove = false) (lake : DataLake) :
    calls.foldl service.after lake = lake := by
  induction calls with
  | nil =>
      rfl
  | cons call rest ih =>
      obtain ⟨hcreate, hremove⟩ := hcalls call List.mem_cons_self
      rw [List.foldl_cons, after_of_question lake hcreate hremove]
      exact ih fun later hlater => hcalls later (List.mem_cons_of_mem _ hlater)

end DataLake

/-- What a lake keeps of a destination that was made. -/
def Target.entry (target : Target) (headers : Headers) (info : Info) : Properties :=
  { length := if target.kind = .folder then 0 else info.sourceSize
    headers
    etag := []
    kind := target.kind.entity }

theorem Target.created_eq_entry (target : Target) (headers : Headers) (info : Info) :
    DataLake.created target.kind.entity headers info.sourceSize = target.entry headers info := by
  cases hkind : target.kind <;>
    simp [DataLake.created, Target.entry, hkind, TargetKind.entity]

/-- A prologue without a fault is the first one, and the service made the destination. -/
theorem Sender.prologue_ok {σ : Type} (service : Service σ) {sender : Sender}
    {s : Setting Tracker σ} (h : (sender.prologue service s).1.fault = none) :
    sender.phase = .constructed ∧
      s.context.isDone s.transfer.flags s.clock.steady = false ∧
      (service.create s.service (s.arrival s.context) sender.target.url
        sender.target.kind.entity sender.headers s.transfer.info.sourceSize).answer = .ok () := by
  unfold Sender.prologue at h
  split at h
  · rename_i hphase
    dsimp only at h
    split at h
    · rename_i hcreated
      obtain ⟨hlive, hanswer⟩ := Setting.live_of_send_ok hcreated
      exact ⟨hphase, hlive, hanswer⟩
    · cases h
  · cases h

namespace Upload

variable {offer : Offer} {tracker : Tracker} {upload : Upload Tracker DataLake}

/-! ## Runs on a lake -/

/-- The upload where the lake has its next script. -/
def armed (upload : Upload Tracker DataLake) (script : Script) : Upload Tracker DataLake :=
  { upload with setting := { upload.setting with service := upload.setting.service.armed script } }

/-- What the lake keeps under a key. -/
def stored (upload : Upload Tracker DataLake) (key : Bytes) : Option Properties :=
  upload.setting.service.get? key

/-- The key of the destination. -/
def key (upload : Upload Tracker DataLake) : Bytes := upload.sender.target.toText

def lakeStep (upload : Upload Tracker DataLake) (scripted : Script × Step) :
    Answer × Upload Tracker DataLake :=
  (upload.armed scripted.1).step DataLake.service scripted.2

def lakeRun (upload : Upload Tracker DataLake) (steps : List (Script × Step)) :
    Upload Tracker DataLake :=
  steps.foldl (fun upload scripted => (upload.lakeStep scripted).2) upload

theorem lakeRun_append (upload : Upload Tracker DataLake) (first second : List (Script × Step)) :
    upload.lakeRun (first ++ second) = (upload.lakeRun first).lakeRun second := by
  simp [lakeRun]

theorem sends_armed (upload : Upload Tracker DataLake) (script : Script) (step : Step) :
    (upload.armed script).sends step = upload.sends step := by
  cases step <;> rfl

/-- The lake after a step, from the lake before it and the calls of the step. -/
theorem lake_lakeStep (upload : Upload Tracker DataLake) (scripted : Script × Step) :
    (upload.lakeStep scripted).2.setting.service =
      (upload.sends scripted.2).foldl DataLake.service.after
        (upload.setting.service.armed scripted.1) := by
  rw [← sends_armed upload scripted.1]
  exact (sent_step DataLake.service (upload.armed scripted.1) scripted.2).service

theorem sender_lakeStep (upload : Upload Tracker DataLake) (scripted : Script × Step) :
    (upload.lakeStep scripted).2.sender = upload.sender.after scripted.2 :=
  sender_step DataLake.service (upload.armed scripted.1) scripted.2

theorem sender_lakeRun (upload : Upload Tracker DataLake) (steps : List (Script × Step)) :
    (upload.lakeRun steps).sender = upload.sender.afterAll (steps.map Prod.snd) := by
  induction steps generalizing upload with
  | nil =>
      rfl
  | cons scripted rest ih =>
      refine (ih (upload.lakeStep scripted).2).trans ?_
      rw [sender_lakeStep]
      rfl

theorem target_lakeRun (upload : Upload Tracker DataLake) (steps : List (Script × Step)) :
    (upload.lakeRun steps).sender.target = upload.sender.target := by
  rw [sender_lakeRun, Sender.target_afterAll]

theorem Kept.lakeStep (h : upload.Kept offer tracker) (scripted : Script × Step) :
    (upload.lakeStep scripted).2.Kept offer tracker := by
  have harmed : (upload.armed scripted.1).Kept offer tracker :=
    ⟨h.reached, h.info, h.context, h.made⟩
  exact harmed.step DataLake.service scripted.2

theorem Kept.lakeRun (h : upload.Kept offer tracker) (steps : List (Script × Step)) :
    (upload.lakeRun steps).Kept offer tracker := by
  induction steps generalizing upload with
  | nil =>
      exact h
  | cons scripted rest ih =>
      exact ih (h.lakeStep scripted)

theorem transfer_lakeStep_of_isDead (h : upload.setting.transfer.status.isDead = true)
    (scripted : Script × Step) :
    (upload.lakeStep scripted).2.setting.transfer = upload.setting.transfer := by
  obtain ⟨verdicts, htransfer⟩ :=
    (sent_step DataLake.service (upload.armed scripted.1) scripted.2).transfer
  exact htransfer.trans (Tracker.run_of_isDead h verdicts)

theorem isDead_lakeRun (h : upload.setting.transfer.status.isDead = true)
    (steps : List (Script × Step)) :
    (upload.lakeRun steps).setting.transfer.status.isDead = true := by
  induction steps generalizing upload with
  | nil =>
      exact h
  | cons scripted rest ih =>
      apply ih
      rw [transfer_lakeStep_of_isDead h scripted]
      exact h

/-! ## Entries that stay -/

theorem url_of_mem_sends {step : Step} {call : Call} (hcall : call ∈ upload.sends step) :
    call.request.url = upload.sender.target.url := by
  obtain ⟨ctx, request, hasks, _, rfl⟩ := asks_of_mem_sends hcall
  cases hasks <;> rfl

theorem isRemove_of_alive (halive : upload.setting.transfer.status.isDead ≠ true) {step : Step}
    {call : Call} (hcall : call ∈ upload.sends step) : call.isRemove = false := by
  obtain ⟨ctx, request, hasks, _, rfl⟩ := asks_of_mem_sends hcall
  cases hasks with
  | remove _ hdead =>
      exact absurd hdead halive
  | create | «exists» | length =>
      rfl

theorem stored_lakeStep_of_ne {other : Bytes} (hne : other ≠ upload.key)
    (scripted : Script × Step) :
    (upload.lakeStep scripted).2.stored other = upload.stored other := by
  have hcalls : ∀ call ∈ upload.sends scripted.2, other ≠ call.request.url.toText := by
    intro call hcall
    rw [url_of_mem_sends hcall]
    exact hne
  rw [stored, lake_lakeStep, DataLake.get?_foldl_after_of_ne hcalls]
  rfl

theorem stored_lakeRun_of_ne {other : Bytes} (hne : other ≠ upload.key)
    (steps : List (Script × Step)) :
    (upload.lakeRun steps).stored other = upload.stored other := by
  induction steps generalizing upload with
  | nil =>
      rfl
  | cons scripted rest ih =>
      refine (ih ?_).trans (stored_lakeStep_of_ne hne scripted)
      rw [key, sender_lakeStep, Sender.target_after]
      exact hne

theorem stored_lakeStep_of_questions {scripted : Script × Step}
    (hcalls : ∀ call ∈ upload.sends scripted.2, call.isCreate = false ∧ call.isRemove = false)
    (key : Bytes) : (upload.lakeStep scripted).2.stored key = upload.stored key := by
  rw [stored, lake_lakeStep, DataLake.foldl_after_of_questions hcalls]
  rfl

theorem stored_lakeRun_of_cleanedUp (h : upload.sender.phase = .cleanedUp)
    (steps : List (Script × Step)) (key : Bytes) :
    (upload.lakeRun steps).stored key = upload.stored key := by
  induction steps generalizing upload with
  | nil =>
      rfl
  | cons scripted rest ih =>
      have hcalls : ∀ call ∈ upload.sends scripted.2,
          call.isCreate = false ∧ call.isRemove = false := fun call hcall =>
        ⟨once_create.out upload scripted.2 (by simp [h]) call hcall,
          once_remove.out upload scripted.2 h call hcall⟩
      refine (ih ?_).trans (stored_lakeStep_of_questions hcalls key)
      rw [sender_lakeStep]
      exact Sender.phase_after_cleanedUp h scripted.2

/-- Once the prologue is over, a transfer that is not dead leaves all entries alone. -/
theorem stored_lakeRun_of_alive (hphase : upload.sender.phase ≠ .constructed)
    {steps : List (Script × Step)}
    (halive : (upload.lakeRun steps).setting.transfer.status.isDead = false) (key : Bytes) :
    (upload.lakeRun steps).stored key = upload.stored key := by
  induction steps generalizing upload with
  | nil =>
      rfl
  | cons scripted rest ih =>
      -- what is dead stays dead, so a transfer that is not dead at the end was not before
      have hstart : upload.setting.transfer.status.isDead ≠ true := by
        intro hdead
        rw [isDead_lakeRun hdead] at halive
        cases halive
      have hcalls : ∀ call ∈ upload.sends scripted.2,
          call.isCreate = false ∧ call.isRemove = false := fun call hcall =>
        ⟨once_create.out upload scripted.2 hphase call hcall, isRemove_of_alive hstart hcall⟩
      refine (ih ?_ halive).trans (stored_lakeStep_of_questions hcalls key)
      rw [sender_lakeStep]
      exact Sender.phase_after_ne_constructed hphase scripted.2

/-! ## The entry that the cleanup deletes -/

/-- Whether the deadline of a delete that is sent now lies ahead. -/
def inTime (upload : Upload Tracker DataLake) : Prop :=
  upload.setting.clock.steady <
    wrap64 (upload.setting.clock.steady + upload.sender.config.cleanupTimeout * 1000000)

theorem Kept.inTime_of_range (h : upload.Kept offer tracker)
    (hlow : Clock.first ≤ upload.setting.clock.steady + offer.config.cleanupTimeout * 1000000)
    (hhigh : upload.setting.clock.steady + offer.config.cleanupTimeout * 1000000 ≤ Clock.last) :
    upload.inTime := by
  have hpositive := (Config.validate_eq_ok_iff.1 h.made.valid).2
  rw [inTime, h.made.config, wrap64_eq_self hlow hhigh]
  omega

theorem stored_cleanup_of_isDead (hphase : upload.sender.phase ≠ .cleanedUp)
    (hdead : upload.setting.transfer.status.isDead = true) {script : Script}
    (hfault : script.fault = none) :
    (upload.lakeStep (script, .cleanup)).2.stored upload.key = none ↔
      upload.inTime ∨ upload.stored upload.key = none := by
  rw [stored, lake_lakeStep]
  simp only [sends, hphase, hdead, ne_eq, not_false_eq_true, and_self, if_true]
  have hdone := upload.sender.isDone_cleanupContext upload.setting.transfer.flags
    upload.setting.clock.steady
  by_cases htime : upload.inTime
  · rw [decide_eq_false (Int.not_le.2 htime)] at hdone
    rw [Setting.attempt_of_live hdone]
    have harmed : (upload.setting.service.armed script).onRemove.fault = none := hfault
    have hdeleted := DataLake.get?_after_remove harmed
    simp [htime, hdeleted, key, Target.toText]
  · rw [decide_eq_true (Int.not_lt.1 htime)] at hdone
    simp only [Setting.attempt, hdone, if_true, List.foldl_nil, htime, false_or]
    exact Iff.rfl

/-! ## The entry that the prologue makes -/

theorem stored_prologue {script : Script} {outcome : Outcome}
    (hanswer : (upload.lakeStep (script, .prologue)).1 = .outcome outcome)
    (hfault : outcome.fault = none) :
    (upload.lakeStep (script, .prologue)).2.stored upload.key =
      some (upload.sender.target.entry upload.sender.headers upload.setting.transfer.info) := by
  have hprologue : (upload.sender.prologue DataLake.service (upload.armed script).setting).1 =
      outcome := Answer.outcome.inj hanswer
  rw [← hprologue] at hfault
  obtain ⟨hphase, harmed, hcreated⟩ := Sender.prologue_ok DataLake.service hfault
  have hlive : upload.setting.context.isDone upload.setting.transfer.flags
      upload.setting.clock.steady = false := harmed
  have hcreate := DataLake.answer_react_ok hcreated
  rw [stored, lake_lakeStep]
  simp only [sends, show upload.sender.phase = .constructed from hphase, if_true]
  rw [Setting.attempt_of_live hlive, List.foldl_cons, List.foldl_nil, ← Target.created_eq_entry]
  exact DataLake.get?_after_create hcreate _ _ _ _ _

theorem phase_prologue_ne_constructed (upload : Upload Tracker DataLake) (script : Script) :
    (upload.lakeStep (script, .prologue)).2.sender.phase ≠ .constructed := by
  rw [sender_lakeStep]
  by_cases hphase : upload.sender.phase = .constructed
  · simp [Sender.after, hphase, Sender.begun]
  · exact Sender.phase_after_ne_constructed hphase .prologue

/-! ## The lake after a run -/

theorem lakeRun_cons (upload : Upload Tracker DataLake) (scripted : Script × Step)
    (rest : List (Script × Step)) :
    upload.lakeRun (scripted :: rest) = (upload.lakeStep scripted).2.lakeRun rest := rfl

/-- From its first cleanup on, an upload leaves the lake as it is. -/
theorem stored_lakeRun_cleanup (upload : Upload Tracker DataLake) (script : Script)
    (later : List (Script × Step)) (key : Bytes) :
    (upload.lakeRun ((script, .cleanup) :: later)).stored key =
      (upload.lakeStep (script, .cleanup)).2.stored key := by
  rw [lakeRun_cons]
  apply stored_lakeRun_of_cleanedUp
  rw [sender_lakeStep]
  exact Sender.phase_after_cleanup upload.sender

theorem stored_cleanup_of_alive (halive : upload.setting.transfer.status.isDead ≠ true)
    (script : Script) (key : Bytes) :
    (upload.lakeStep (script, .cleanup)).2.stored key = upload.stored key := by
  refine stored_lakeStep_of_questions (fun call hcall => ⟨?_, isRemove_of_alive halive hcall⟩) key
  obtain ⟨ctx, request, hasks, _, rfl⟩ := asks_of_mem_sends hcall
  cases hasks
  rfl

/-- What an upload does to the lake in any run: it touches its own entry only, a cleanup of a dead
upload takes the entry away exactly if it is in time, as it is unless the deadline leaves the range
of the clock, and what a prologue made stays otherwise. -/
structure LakeEffect (offer : Offer) (tracker : Tracker) (start : Upload Tracker DataLake) :
    Prop where
  others : ∀ steps other, other ≠ start.key →
    (start.lakeRun steps).stored other = start.stored other
  deleted : ∀ first script later, .cleanup ∉ first.map Prod.snd →
    script.fault = none → (start.lakeRun first).setting.transfer.status.isDead = true →
    ((start.lakeRun (first ++ (script, .cleanup) :: later)).stored start.key = none ↔
      (start.lakeRun first).inTime ∨ (start.lakeRun first).stored start.key = none)
  inTime : ∀ steps,
    Clock.first ≤ (start.lakeRun steps).setting.clock.steady +
      offer.config.cleanupTimeout * 1000000 →
    (start.lakeRun steps).setting.clock.steady + offer.config.cleanupTimeout * 1000000 ≤
      Clock.last →
    (start.lakeRun steps).inTime
  kept : ∀ first script outcome middle closing later,
    ((start.lakeRun first).lakeStep (script, .prologue)).1 = .outcome outcome →
    outcome.fault = none →
    (start.lakeRun (first ++ (script, .prologue) :: middle)).setting.transfer.status.isDead =
      false →
    ∃ properties, offer.source.answer = .ok properties ∧
      (start.lakeRun (first ++ (script, .prologue) :: middle ++
        (closing, .cleanup) :: later)).stored start.key =
        some (start.sender.target.entry properties.headers tracker.info)

theorem stored_of_prologue {start : Upload Tracker DataLake} (hkept : start.Kept offer tracker)
    (first : List (Script × Step)) {script : Script} {outcome : Outcome}
    (hanswer : ((start.lakeRun first).lakeStep (script, .prologue)).1 = .outcome outcome)
    (hfault : outcome.fault = none) :
    ∃ properties, offer.source.answer = .ok properties ∧
      ((start.lakeRun first).lakeStep (script, .prologue)).2.stored start.key =
        some (start.sender.target.entry properties.headers tracker.info) := by
  have hbefore := hkept.lakeRun first
  obtain ⟨properties, hsource, hheaders⟩ := hbefore.made.headers
  have hmade := stored_prologue hanswer hfault
  rw [key, target_lakeRun, hheaders, hbefore.info] at hmade
  exact ⟨properties, hsource, hmade⟩

theorem lake_effect {start : Upload Tracker DataLake} (hstart : start.Created offer tracker) :
    LakeEffect offer tracker start := by
  constructor
  · intro steps other hne
    exact stored_lakeRun_of_ne hne steps
  · intro first script later hfirst hfault hdead
    have hphase : (start.lakeRun first).sender.phase ≠ .cleanedUp := by
      rw [sender_lakeRun]
      exact Sender.phase_afterAll_ne_cleanedUp (by simp [hstart.phase]) hfirst
    have hkey : (start.lakeRun first).key = start.key := by
      rw [key, target_lakeRun, key]
    rw [lakeRun_append, stored_lakeRun_cleanup, ← hkey]
    exact stored_cleanup_of_isDead hphase hdead hfault
  · intro steps hlow hhigh
    exact (hstart.kept.lakeRun steps).inTime_of_range hlow hhigh
  · intro first script outcome middle closing later hanswer hfault halive
    obtain ⟨properties, hsource, hmade⟩ :=
      stored_of_prologue hstart.kept first hanswer hfault
    refine ⟨properties, hsource, ?_⟩
    -- back from the cleanup to the prologue, over steps that change nothing
    rw [lakeRun_append, stored_lakeRun_cleanup,
      stored_cleanup_of_alive (Bool.eq_false_iff.1 halive)]
    rw [lakeRun_append, lakeRun_cons] at halive ⊢
    rw [stored_lakeRun_of_alive (phase_prologue_ne_constructed _ script) halive, hmade]

/-- A small upload that comes to its end: what its prologue made is there. -/
theorem smallUpload_lake_effect :
    smallUpload.Created smallOffer smallTracker ∧
      LakeEffect smallOffer smallTracker smallUpload ∧
      (smallUpload.lakeRun [({}, .prologue), ({}, .cleanup)]).stored smallUpload.key =
        some { length := 5, headers := smallHeaders } :=
  ⟨smallUpload_created, lake_effect smallUpload_created, by decide +kernel⟩

/-! ## A delete that is late from the start -/

/-- The longest timeout that there is. -/
def patientOffer : Offer :=
  { smallOffer with config := { cleanupTimeout := Clock.last } }

def patientUpload : Upload Tracker DataLake :=
  { sender := { smallUpload.sender with config := patientOffer.config }
    setting := (Sender.create patientOffer smallSetting).2 }

theorem patientUpload_created : patientUpload.Created patientOffer smallTracker :=
  ⟨⟨_, _, [], rfl⟩, smallSetting, rfl, rfl, by rfl, rfl⟩

/-- The deadline of a patient cleanup has passed before it starts, and the entry stays. -/
theorem not_always_deleted :
    ¬ ∀ (offer : Offer) (tracker : Tracker) (start : Upload Tracker DataLake)
      (first : List (Script × Step)) (script : Script), start.Created offer tracker →
      .cleanup ∉ first.map Prod.snd → script.fault = none →
      (start.lakeRun first).setting.transfer.status.isDead = true →
      (start.lakeRun (first ++ [(script, .cleanup)])).stored start.key = none := by
  intro h
  have hgone := h patientOffer smallTracker patientUpload
    [({}, .prologue), ({}, .incident (.report .cancelled))] {} patientUpload_created
    (by decide) rfl (by decide +kernel)
  revert hgone
  decide +kernel

end Upload

end LakeUpload
