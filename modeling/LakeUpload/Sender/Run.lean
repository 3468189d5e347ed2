import LakeUpload.Sender.Basic

/-!
# Runs of an upload

An upload is a sender in its setting. `step` does one of the things that can be done to it, in any
order, and `run` does a list of them.
-/

namespace LakeUpload

structure Upload (τ σ : Type) where
  sender : Sender
  setting : Setting τ σ

namespace Upload

inductive Step where
  | prologue
  | cleanup
  | destinationExists
  | destinationLength
  /-- Time passes, or the transfer is told something, between two calls. -/
  | incident (incident : Incident)
  deriving DecidableEq, Repr

/-- What a step answers. -/
inductive Answer where
  | outcome (outcome : Outcome)
  | exists (answer : Except Fault Bool)
  | length (answer : Except Fault UInt64)
  | none

variable {τ σ : Type} [Transfer τ]

def step (service : Service σ) (upload : Upload τ σ) : Step → Answer × Upload τ σ
  | .prologue =>
      let done := upload.sender.prologue service upload.setting
      (.outcome done.1, { sender := done.2.1, setting := done.2.2 })
  | .cleanup =>
      let done := upload.sender.cleanup service upload.setting
      (.none, { sender := done.1, setting := done.2 })
  | .destinationExists =>
      let done := upload.sender.destinationExists service upload.setting
      (.exists done.1, { upload with setting := done.2 })
  | .destinationLength =>
      let done := upload.sender.destinationLength service upload.setting
      (.length done.1, { upload with setting := done.2 })
  | .incident incident => (.none, { upload with setting := upload.setting.incur incident })

def run (service : Service σ) (upload : Upload τ σ) (steps : List Step) : Upload τ σ :=
  steps.foldl (fun upload step => (upload.step service step).2) upload

theorem run_append (service : Service σ) (upload : Upload τ σ) (first second : List Step) :
    upload.run service (first ++ second) = (upload.run service first).run service second := by
  simp [run]

/-- The state that the sender reports. -/
def state (upload : Upload τ σ) : SenderState :=
  upload.sender.state (Transfer.status upload.setting.transfer)

end Upload

end LakeUpload
