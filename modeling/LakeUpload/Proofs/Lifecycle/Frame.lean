import LakeUpload.Proofs.Lifecycle.Reports
import LakeUpload.Sender.Basic

/-!
# Frames of a setting

Two relations say what an operation leaves alone. `Quiet` allows it nothing but output. `Sent`
names the calls that reached the service on the way: the trace grows by them, the service's state
changes by them, and of the tracker it is only known that it was told something.
-/

namespace LakeUpload

/-- The state of a service once it has worked on a call. -/
def Service.after {σ : Type} (service : Service σ) (state : σ) (call : Call) : σ :=
  match call.request with
  | .create url kind headers length =>
      (service.create state call.toArrival url kind headers length).state
  | .remove url kind => (service.remove state call.toArrival url kind).state
  | .properties url => (service.properties state call.toArrival url).state

namespace Setting

variable {τ σ α : Type}

/-! ## Nothing but output -/

def Quiet (s t : Setting τ σ) : Prop := t = { s with output := t.output }

theorem Quiet.refl (s : Setting τ σ) : Quiet s s := rfl

theorem Quiet.trans {s t u : Setting τ σ} (hst : Quiet s t) (htu : Quiet t u) : Quiet s u := by
  unfold Quiet at hst htu ⊢
  rw [htu, hst]

theorem quiet_write (s : Setting τ σ) (message : Log.Message) : Quiet s (s.write message) := rfl

theorem quiet_writeAll (s : Setting τ σ) (messages : List Log.Message) :
    Quiet s (s.writeAll messages) := by
  induction messages generalizing s with
  | nil =>
      exact Quiet.refl s
  | cons message rest ih =>
      exact (quiet_write s message).trans (ih (s.write message))

theorem quiet_notices (s : Setting τ σ) (notices : List Notice) :
    Quiet s (notices.foldl notify s) := by
  induction notices generalizing s with
  | nil =>
      exact Quiet.refl s
  | cons notice rest ih =>
      have hfirst : Quiet s (s.notify notice) := by
        cases notice <;> rfl
      exact hfirst.trans (ih (s.notify notice))

theorem quiet_say [Transfer τ] (s : Setting τ σ) (level : Log.Level) (message : Bytes) :
    Quiet s (s.say level message) :=
  quiet_notices s _

theorem say_of_passes {s : Setting Tracker σ} {level : Log.Level}
    (h : level.passes s.transfer.minLevel = true) (message : Bytes) :
    s.say level message = s.write (s.transfer.note level message) := by
  simp [say, Transfer.say, Tracker.say, h, notify]

theorem say_of_not_passes {s : Setting Tracker σ} {level : Log.Level}
    (h : level.passes s.transfer.minLevel = false) (message : Bytes) :
    s.say level message = s := by
  simp [say, Transfer.say, Tracker.say, h]

theorem quiet_create [Transfer τ] (offer : Offer) (s : Setting τ σ) :
    Quiet s (Sender.create offer s).2 := by
  have htold (messages : List Log.Message) := quiet_writeAll s messages
  unfold Sender.create
  split
  · split
    · exact Quiet.refl s
    · dsimp only
      split
      · exact htold _
      · split
        · exact (htold _).trans (quiet_write _ _)
        · unfold Sender.createFrom
          dsimp only
          split
          · exact ((htold _).trans (quiet_writeAll _ _)).trans (quiet_write _ _)
          · exact ((htold _).trans (quiet_writeAll _ _)).trans (quiet_write _ _)
  · exact Quiet.refl s

/-! ## Calls that reach the service -/

structure Sent (service : Service σ) (sent : List Call) (s t : Setting Tracker σ) : Prop where
  logger : t.logger = s.logger
  calls : t.calls = s.calls ++ sent
  service : t.service = sent.foldl service.after s.service
  transfer : ∃ verdicts, t.transfer = s.transfer.run verdicts

variable {s t u : Setting Tracker σ} {first second : List Call}

theorem Quiet.sent (service : Service σ) (h : Quiet s t) : Sent service [] s t := by
  unfold Quiet at h
  rw [h]
  exact ⟨rfl, (List.append_nil _).symm, rfl, [], rfl⟩

variable {service : Service σ}

theorem Sent.trans (hst : Sent service first s t) (htu : Sent service second t u) :
    Sent service (first ++ second) s u := by
  obtain ⟨before, hbefore⟩ := hst.transfer
  obtain ⟨after, hafter⟩ := htu.transfer
  refine ⟨htu.logger.trans hst.logger, ?_, ?_, before ++ after, ?_⟩
  · rw [htu.calls, hst.calls, List.append_assoc]
  · rw [htu.service, hst.service, List.foldl_append]
  · rw [hafter, hbefore, Tracker.run_append]

theorem sent_report (s : Setting Tracker σ) (verdict : Verdict) :
    Sent service [] s (s.report verdict) := by
  have htold : Sent service [] s
      { s with transfer := (Transfer.report s.transfer verdict).transfer } :=
    ⟨rfl, (List.append_nil _).symm, rfl, [verdict], rfl⟩
  exact htold.trans ((quiet_notices _ _).sent service)

theorem sent_incur (s : Setting Tracker σ) (incident : Incident) :
    Sent service [] s (s.incur incident) := by
  cases incident with
  | pass nanos =>
      exact ⟨rfl, (List.append_nil _).symm, rfl, [], rfl⟩
  | report verdict =>
      exact sent_report s verdict
  | say level message =>
      exact (quiet_say s level message).sent service

theorem sent_incidents (s : Setting Tracker σ) (incidents : List Incident) :
    Sent service [] s (incidents.foldl incur s) := by
  induction incidents generalizing s with
  | nil =>
      exact (Quiet.refl s).sent service
  | cons incident rest ih =>
      exact (sent_incur s incident).trans (ih (s.incur incident))

theorem sent_received {call : Call} {reaction : Reaction σ α}
    (hstate : reaction.state = service.after s.service call) :
    Sent service [call] s (s.received call reaction) := by
  have harrived : Sent service [call] s
      { s with service := reaction.state, calls := s.calls ++ [call] } :=
    ⟨rfl, rfl, hstate, [], rfl⟩
  exact harrived.trans (sent_incidents _ _)

/-- The call that a request under this context makes, unless the context is done. -/
def attempt (s : Setting Tracker σ) (ctx : CallContext) (request : Request) : List Call :=
  if ctx.isDone s.transfer.flags s.clock.steady then [] else [{ s.arrival ctx with request }]

theorem attempt_of_live {ctx : CallContext}
    (hlive : ctx.isDone s.transfer.flags s.clock.steady = false) (request : Request) :
    s.attempt ctx request = [{ s.arrival ctx with request }] := by
  simp [attempt, hlive]

theorem eq_of_mem_attempt {ctx : CallContext} {request : Request} {call : Call}
    (h : call ∈ s.attempt ctx request) :
    ctx.isDone s.transfer.flags s.clock.steady = false ∧
      call = { s.arrival ctx with request } := by
  unfold attempt at h
  split at h
  · cases h
  · rename_i hlive
    exact ⟨by simpa using hlive, by simpa using h⟩

theorem length_attempt_le (s : Setting Tracker σ) (ctx : CallContext) (request : Request) :
    (s.attempt ctx request).length ≤ 1 := by
  unfold attempt
  split <;> simp

theorem send_of_live {ctx : CallContext}
    (hlive : ctx.isDone s.transfer.flags s.clock.steady = false) (request : Request)
    (react : σ → Arrival → Reaction σ α) :
    s.send ctx request react =
      ((react s.service (s.arrival ctx)).answer,
        s.received { s.arrival ctx with request } (react s.service (s.arrival ctx))) :=
  send_of_check_ok (CallContext.check_eq_ok_iff.2 hlive) request react

theorem send_of_done {ctx : CallContext}
    (hdone : ctx.isDone s.transfer.flags s.clock.steady = true) (request : Request)
    (react : σ → Arrival → Reaction σ α) :
    ∃ fault, s.send ctx request react = (.error fault, s) := by
  cases hcheck : ctx.check s.transfer.flags s.clock.steady with
  | error fault =>
      exact ⟨fault, send_of_check_error hcheck request react⟩
  | ok done =>
      rw [CallContext.check_eq_ok_iff.1 hcheck] at hdone
      cases hdone

theorem live_of_send_ok {ctx : CallContext} {request : Request}
    {react : σ → Arrival → Reaction σ α} {a : α} (h : (s.send ctx request react).1 = .ok a) :
    ctx.isDone s.transfer.flags s.clock.steady = false ∧
      (react s.service (s.arrival ctx)).answer = .ok a := by
  cases hdone : ctx.isDone s.transfer.flags s.clock.steady with
  | false =>
      rw [send_of_live hdone] at h
      exact ⟨rfl, h⟩
  | true =>
      obtain ⟨fault, hsend⟩ := send_of_done hdone request react
      rw [hsend] at h
      cases h

theorem sent_send {ctx : CallContext} {request : Request} {react : σ → Arrival → Reaction σ α}
    (hreact : ∀ arrival, (react s.service arrival).state =
      service.after s.service { arrival with request }) :
    Sent service (s.attempt ctx request) s (s.send ctx request react).2 := by
  cases hdone : ctx.isDone s.transfer.flags s.clock.steady with
  | false =>
      rw [attempt_of_live hdone, send_of_live hdone]
      exact sent_received (hreact _)
  | true =>
      obtain ⟨fault, hsend⟩ := send_of_done hdone request react
      rw [hsend]
      simp only [attempt, hdone, if_true]
      exact (Quiet.refl s).sent service

end Setting

namespace Target

variable {σ : Type} (service : Service σ) (target : Target) (ctx : CallContext)
variable (s : Setting Tracker σ)

theorem sent_create (headers : Headers) (length : UInt64) :
    Setting.Sent service
      (s.attempt ctx (.create target.url target.kind.entity headers length)) s
      (target.create service ctx headers length s).2 :=
  Setting.sent_send fun _ => rfl

theorem sent_remove :
    Setting.Sent service (s.attempt ctx (.remove target.url target.kind.entity)) s
      (target.remove service ctx s).2 :=
  Setting.sent_send fun _ => rfl

theorem sent_properties :
    Setting.Sent service (s.attempt ctx (.properties target.url)) s
      (target.properties service ctx s).2 :=
  Setting.sent_send fun _ => rfl

end Target

end LakeUpload
