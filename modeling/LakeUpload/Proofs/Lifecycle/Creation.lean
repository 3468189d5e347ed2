import LakeUpload.Proofs.Lifecycle.Steps

/-!
# Making a sender

Six things have to be in order for a sender to be made. They are looked at one after the other, and
the first of them that is not in order is what the caller is told of, whatever else is wrong. The
source is looked at last, so that nothing is asked of it in vain. Whether a sender is made or not,
nothing but output comes of it: no call is sent, and the transfer hears nothing.
-/

namespace LakeUpload

open Bytes (ascii)

/-- The fault of an answer, if it is one. -/
def Fault.of? {α : Type} : Except Fault α → Option Fault
  | .ok _ => none
  | .error fault => some fault

@[simp] theorem Fault.of?_ok {α : Type} (a : α) : of? (.ok a) = none := rfl

@[simp] theorem Fault.of?_error {α : Type} (fault : Fault) :
    of? (.error fault : Except Fault α) = some fault := rfl

theorem Fault.of?_eq_some_iff {α : Type} {answer : Except Fault α} {fault : Fault} :
    of? answer = some fault ↔ answer = .error fault := by
  cases answer <;> simp

theorem Fault.of?_eq_none_iff {α : Type} {answer : Except Fault α} :
    of? answer = none ↔ ∃ a, answer = .ok a := by
  cases answer <;> simp

/-! ## What has to be in order -/

inductive Requirement where
  | transfer
  | config
  | service
  | destination
  | blockSize
  | source
  deriving DecidableEq, Repr

namespace Requirement

/-- What is looked at before the source, in this order. -/
def early : List Requirement := [transfer, config, service, destination, blockSize]

def inTurn : List Requirement := early ++ [source]

def Met (offer : Offer) (info : Info) : Requirement → Prop
  | transfer => offer.hasTransfer = true
  | config => offer.config.validate = .ok ()
  | service => offer.hasService = true
  | destination => ∃ url, Url.parse info.destination = .ok url
  | blockSize => 0 < info.blockSize
  | source => ∃ properties, offer.source.answer = .ok properties

/-- The fault of an offer that does not meet the requirement. -/
def fault? (offer : Offer) (info : Info) : Requirement → Option Fault
  | transfer => if offer.hasTransfer then none else some Sender.transferMissing
  | config => Fault.of? offer.config.validate
  | service => if offer.hasService then none else some Target.serviceMissing
  | destination => Fault.of? (Url.parse info.destination)
  | blockSize => if info.blockSize = 0 then some ChunkPlan.blockSizeZero else none
  | source => (Fault.of? offer.source.answer).map (Sender.sourceFailed info)

theorem mem_inTurn (requirement : Requirement) : requirement ∈ inTurn := by
  cases requirement <;> decide

theorem fault?_eq_none_iff {offer : Offer} {info : Info} {requirement : Requirement} :
    requirement.fault? offer info = none ↔ requirement.Met offer info := by
  cases requirement with
  | transfer | service =>
      simp [fault?, Met]
  | config =>
      rw [fault?, Fault.of?_eq_none_iff]
      exact ⟨fun ⟨_, h⟩ => h, fun h => ⟨(), h⟩⟩
  | destination =>
      exact Fault.of?_eq_none_iff
  | blockSize =>
      simp only [fault?, Met, ite_eq_right_iff, reduceCtorEq, imp_false, UInt32.pos_iff_ne_zero]
  | source =>
      simp [fault?, Met, Fault.of?_eq_none_iff]

end Requirement

namespace Sender

variable {τ σ : Type} [Transfer τ]

open Requirement (early inTurn Met fault?)

theorem of?_resolve (offer : Offer) (info : Info) :
    Fault.of? (Target.resolve offer.hasService info.destination info.entity).1 =
      [Requirement.service, .destination].findSome? (fault? offer info) := by
  cases hservice : offer.hasService with
  | false =>
      simp [Target.resolve, fault?, hservice]
  | true =>
      cases hparse : Url.parse info.destination <;>
        simp [Target.resolve, fault?, hservice, hparse]

theorem of?_ofSource (offer : Offer) (info : Info) :
    Fault.of? (ChunkPlan.ofSource info.sourceSize info.blockSize) =
      fault? offer info .blockSize := by
  unfold ChunkPlan.ofSource fault?
  split <;> rfl

theorem of?_createFrom (offer : Offer) (target : Target) (plan : ChunkPlan) (s : Setting τ σ) :
    Fault.of? (createFrom offer target plan s).1 =
      fault? offer (Transfer.info s.transfer) .source := by
  unfold createFrom fault?
  cases offer.source.answer <;> rfl

/-- The first thing that is not in order is the answer. -/
theorem of?_create (offer : Offer) (s : Setting τ σ) :
    Fault.of? (create offer s).1 = inTurn.findSome? (fault? offer (Transfer.info s.transfer)) := by
  have hturn : inTurn = [.transfer] ++ ([.config] ++ ([.service, .destination] ++
      ([.blockSize] ++ [.source]))) := rfl
  rw [hturn, List.findSome?_append, List.findSome?_append, List.findSome?_append,
    List.findSome?_append, ← of?_resolve, List.findSome?_singleton, List.findSome?_singleton,
    List.findSome?_singleton, List.findSome?_singleton, ← of?_ofSource]
  unfold create
  cases htransfer : offer.hasTransfer with
  | false =>
      simp [fault?, htransfer]
  | true =>
      cases hvalid : offer.config.validate with
      | error fault =>
          simp [fault?, htransfer, hvalid]
      | ok done =>
          cases hresolved : (Target.resolve offer.hasService (Transfer.info s.transfer).destination
              (Transfer.info s.transfer).entity).1 with
          | error fault =>
              simp [fault?, htransfer, hvalid, hresolved]
          | ok target =>
              cases hplan : ChunkPlan.ofSource (Transfer.info s.transfer).sourceSize
                  (Transfer.info s.transfer).blockSize with
              | error fault =>
                  simp [fault?, htransfer, hvalid, hresolved, hplan]
              | ok plan =>
                  have htold (messages : List Log.Message) :
                      (s.writeAll messages).transfer = s.transfer := by
                    rw [Setting.quiet_writeAll s messages]
                  simp [of?_createFrom, htold, hvalid, hresolved, hplan, fault?, htransfer]

/-- The source is not asked where something else is out of order: neither the answer nor what is
written hangs on it. -/
theorem create_eq_of_early {offer : Offer} {s : Setting τ σ}
    (h : ∃ requirement ∈ early, ¬ Met offer (Transfer.info s.transfer) requirement)
    (source : Source) : create { offer with source } s = create offer s := by
  unfold create
  dsimp only
  split
  · split
    · rfl
    · rename_i htransfer _ hvalid
      split
      · rfl
      · rename_i target hresolved
        split
        · rfl
        · -- all that is looked at before the source is in order
          rename_i plan hplan
          obtain ⟨requirement, hearly, hunmet⟩ := h
          have hresolve := of?_resolve offer (Transfer.info s.transfer)
          have hblock := of?_ofSource offer (Transfer.info s.transfer)
          rw [hresolved, Fault.of?_ok, eq_comm, List.findSome?_eq_none_iff] at hresolve
          rw [hplan, Fault.of?_ok] at hblock
          refine absurd (Requirement.fault?_eq_none_iff.1 ?_) hunmet
          cases requirement with
          | transfer =>
              simp [fault?, htransfer]
          | config =>
              rw [fault?, hvalid, Fault.of?_ok]
          | service | destination =>
              exact hresolve _ (by simp)
          | blockSize =>
              exact hblock.symm
          | source =>
              exact absurd hearly (by decide)
  · rfl

/-- What making a sender comes to. -/
structure AllOrNothing (offer : Offer) (s : Setting τ σ) : Prop where
  made : (∃ sender, (create offer s).1 = .ok sender) ↔
    ∀ requirement, Met offer (Transfer.info s.transfer) requirement
  /-- The fault is that of the first requirement that is not met. -/
  refused : ∀ fault, (create offer s).1 = .error fault ↔
    inTurn.findSome? (fault? offer (Transfer.info s.transfer)) = some fault
  /-- A fault of the source, whatever its code is, is told in a fault of one code. -/
  told : ∀ cause, offer.source.answer = .error cause →
    ∃ fault, fault? offer (Transfer.info s.transfer) .source = some fault ∧
      fault.code = .metadataFetchFailed ∧ (Transfer.info s.transfer).source <:+: fault.message ∧
      cause.message <:+: fault.message
  /-- The source has no say in what is refused before it. -/
  unasked : (∃ requirement ∈ early, ¬ Met offer (Transfer.info s.transfer) requirement) →
    ∀ source, create { offer with source } s = create offer s
  parts : ∀ sender, (create offer s).1 = .ok sender →
    (Target.resolve offer.hasService (Transfer.info s.transfer).destination
        (Transfer.info s.transfer).entity).1 = .ok sender.target ∧
      ChunkPlan.ofSource (Transfer.info s.transfer).sourceSize
        (Transfer.info s.transfer).blockSize = .ok sender.plan ∧
      ∃ properties, offer.source.answer = .ok properties ∧ sender.headers = properties.headers
  /-- No call reaches the service, and the transfer is left alone. -/
  quiet : (create offer s).2 = { s with output := (create offer s).2.output }

/-- Making a sender is all or nothing, and tells of the first thing that is wrong. -/
theorem create_all_or_nothing (offer : Offer) (s : Setting τ σ) : AllOrNothing offer s where
  made := by
    rw [← Fault.of?_eq_none_iff, of?_create, List.findSome?_eq_none_iff]
    simp only [Requirement.fault?_eq_none_iff, Requirement.mem_inTurn, true_implies]
  refused fault := by
    rw [← Fault.of?_eq_some_iff, of?_create]
  told cause hcause := by
    refine ⟨sourceFailed (Transfer.info s.transfer) cause, ?_, rfl, ?_, ?_⟩
    · rw [fault?, hcause, Fault.of?_error, Option.map_some]
    · exact ⟨ascii "fetching source properties of ", ascii ": " ++ cause.message, by
        simp [sourceFailed]⟩
    · exact (List.suffix_append _ _).isInfix
  unasked := create_eq_of_early
  parts sender hsender := by
    obtain ⟨target, plan, properties, -, hresolve, hplan, hanswer, rfl⟩ :=
      exists_of_create hsender
    exact ⟨hresolve, hplan, properties, hanswer, rfl⟩
  quiet := Setting.quiet_create offer s

/-- The policy is looked at before the service and the source. -/
example (source : Source) (s : Setting τ σ) :
    (create { source, config := { flushMultiplier := 0 }, hasService := false } s).1 =
      .error Config.multiplierZero := rfl

end Sender

end LakeUpload
