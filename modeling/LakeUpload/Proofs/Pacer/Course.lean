import LakeUpload.Proofs.Pacer.Requests

/-!
# Requests that wait and requests that do not

A request and an attempt to take the tokens at once look at the bucket in one way, as long as the
bucket can hold what is asked for: what the attempt is granted the request gets without a wait, and
where the attempt is refused the first wait begins with the bucket that the attempt leaves.
-/

namespace LakeUpload

namespace Pacer

variable {α ω : Type} [Cancellable ω] (ar : Arithmetic α)

/-! ## Looking and trying -/

theorem capacity_refill (now : Int) (bucket : Bucket α) :
    (bucket.refill ar now).capacity = bucket.capacity := by
  simp only [Bucket.refill]
  split <;> rfl

section

variable {ar} {bytes : UInt64} {now : Int} {bucket : Bucket α}

/-- Nothing is cut off from what is needed where the bucket can hold it. -/
theorem needed_of_fits (hfits : ar.lt bucket.capacity (ar.ofBytes bytes) = false) :
    needed ar bytes bucket = ar.ofBytes bytes := by
  simp [needed, Arithmetic.least, hfits]

theorem tryTake_of_free (hfree : bucket.isFree bytes = true) :
    bucket.tryTake ar bytes now = (true, bucket) := by
  simp [Bucket.tryTake, hfree]

theorem tryTake_of_not_free (hfree : bucket.isFree bytes = false) :
    bucket.tryTake ar bytes now =
      if ar.le (ar.ofBytes bytes) (bucket.refill ar now).tokens then
        (true, (bucket.refill ar now).take ar bytes)
      else (false, bucket.refill ar now) := by
  simp [Bucket.tryTake, hfree]

/-- A refused attempt has counted the tokens, and so does asking for their number. -/
theorem available_of_refused (h : (bucket.tryTake ar bytes now).1 = false) :
    (bucket.tryTake ar bytes now).2 = (bucket.available ar now).2 := by
  cases hfree : bucket.isFree bytes with
  | true =>
      rw [tryTake_of_free hfree] at h
      cases h
  | false =>
      rw [tryTake_of_not_free hfree] at h ⊢
      split at h
      · cases h
      · rename_i hshort
        rw [if_neg hshort]
        rfl

/-- A look at the bucket ends as an attempt does. -/
theorem look_of_fits (hfree : bucket.isFree bytes = false)
    (hfits : ar.lt bucket.capacity (ar.ofBytes bytes) = false) :
    look ar bytes now bucket =
      if (bucket.tryTake ar bytes now).1 then .granted (bucket.tryTake ar bytes now).2
      else .short (bucket.tryTake ar bytes now).2 := by
  have hrate : bucket.rate ≠ 0 := by
    intro hrate
    simp [Bucket.isFree, hrate] at hfree
  have hneeded : needed ar bytes (bucket.refill ar now) = ar.ofBytes bytes := by
    apply needed_of_fits
    rw [capacity_refill, hfits]
  rw [look_of_limited ar hrate, hneeded, tryTake_of_not_free hfree]
  split <;> rfl

end

/-! ## Both ways of asking -/

section

variable (ctx : CallContext) (bytes : UInt64) (events : List Event) (desk : Desk α ω)

/-- What a request is like beside an attempt to take the tokens at once. -/
structure AgreesWithTry : Prop where
  told : ((requestCourse ar ctx bytes events desk).answer,
      (requestCourse ar ctx bytes events desk).final) = request ar ctx bytes events desk
  granted_iff :
    (requestCourse ar ctx bytes events desk).moments = [] ∧
        (requestCourse ar ctx bytes events desk).answer = some (.ok ()) ↔
      (desk.bucket.tryTake ar bytes desk.now).1 = true
  granted : (desk.bucket.tryTake ar bytes desk.now).1 = true →
    request ar ctx bytes events desk =
      (some (.ok ()), { desk with bucket := (desk.bucket.tryTake ar bytes desk.now).2 })
  refused : (desk.bucket.tryTake ar bytes desk.now).1 = false →
    (requestCourse ar ctx bytes events desk).moments.head? =
        some { desk with bucket := (desk.bucket.tryTake ar bytes desk.now).2 } ∧
      (desk.bucket.tryTake ar bytes desk.now).2 = (desk.bucket.available ar desk.now).2

end

section

variable {ar} {ctx : CallContext} {bytes : UInt64} {events : List Event} {desk : Desk α ω}
variable {bucket : Bucket α}

theorem head?_awaitCourse_of_short (hlook : look ar bytes desk.now desk.bucket = .short bucket) :
    (awaitCourse ar ctx bytes events desk).moments.head? = some { desk with bucket } := by
  rw [awaitCourse, hlook]
  simp only
  split
  · rfl
  · split <;> rfl

theorem agreesWithTry_of_atOnce
    (hcourse : requestCourse ar ctx bytes events desk =
      .atOnce (.ok ()) { desk with bucket := (desk.bucket.tryTake ar bytes desk.now).2 })
    (htry : (desk.bucket.tryTake ar bytes desk.now).1 = true) :
    AgreesWithTry ar ctx bytes events desk := by
  refine ⟨rfl, ?_, ?_, ?_⟩
  · rw [hcourse, htry]
    exact ⟨fun _ => rfl, fun _ => ⟨rfl, rfl⟩⟩
  · intro _
    rw [request, hcourse]
    rfl
  · intro hrefused
    rw [htry] at hrefused
    cases hrefused

end

/-- A live request for no more than the bucket can hold, or for nothing, or without a limit, is
granted without a wait exactly if the tokens could be taken at once. -/
theorem request_agrees_with_try {ctx : CallContext} {bytes : UInt64} {desk : Desk α ω}
    (hlive : ctx.check (Cancellable.flags desk.owner) desk.now = .ok ())
    (hbytes : bytes = 0 ∨ desk.bucket.rate = 0 ∨
      ar.lt desk.bucket.capacity (ar.ofBytes bytes) = false) (events : List Event) :
    AgreesWithTry ar ctx bytes events desk := by
  cases hfree : desk.bucket.isFree bytes with
  | true =>
      have htry := @tryTake_of_free _ ar _ desk.now _ hfree
      apply agreesWithTry_of_atOnce
      · simp [requestCourse, hlive, hfree, htry]
      · rw [htry]
  | false =>
      have hcourse : requestCourse ar ctx bytes events desk =
          awaitCourse ar ctx bytes (inOrder events) desk := by
        simp [requestCourse, hlive, hfree]
      have hfits : ar.lt desk.bucket.capacity (ar.ofBytes bytes) = false := by
        simp only [Bucket.isFree, Bool.or_eq_false_iff, beq_eq_false_iff_ne] at hfree
        exact (hbytes.resolve_left hfree.1).resolve_left hfree.2
      have hlook := @look_of_fits _ ar bytes desk.now desk.bucket hfree hfits
      cases htry : (desk.bucket.tryTake ar bytes desk.now).1 with
      | true =>
          rw [htry, if_pos rfl] at hlook
          exact agreesWithTry_of_atOnce (hcourse.trans (awaitCourse_of_granted hlook)) htry
      | false =>
          rw [htry, if_neg Bool.false_ne_true] at hlook
          have hwait := @head?_awaitCourse_of_short _ _ _ ar ctx bytes (inOrder events) desk _ hlook
          have hrefused : (desk.bucket.tryTake ar bytes desk.now).1 ≠ true := by
            rw [htry]
            exact Bool.false_ne_true
          refine ⟨rfl, ?_, ?_, ?_⟩
          · rw [hcourse]
            constructor
            · rintro ⟨hmoments, -⟩
              rw [hmoments] at hwait
              cases hwait
            · intro hgranted
              exact absurd hgranted hrefused
          · intro hgranted
            exact absurd hgranted hrefused
          · intro _
            rw [hcourse]
            exact ⟨hwait, available_of_refused htry⟩

theorem smallDesk_agrees_with_try :
    smallCaller.source.context.check smallCaller.flags 0 = .ok () ∧
      wholes.lt smallDesk.bucket.capacity (wholes.ofBytes 2) = false ∧
      (smallDesk.bucket.tryTake wholes 2 0).1 = false ∧
      AgreesWithTry wholes smallCaller.source.context 2 [⟨7, .cancel⟩] smallDesk ∧
      (laterDesk.bucket.tryTake wholes 2 1000000000).1 = true ∧
      AgreesWithTry wholes smallCaller.source.context 2 [] laterDesk := by
  have hlive (desk : Desk Int Caller) (howner : desk.owner = smallCaller) :
      smallCaller.source.context.check (Cancellable.flags desk.owner) desk.now = .ok () := by
    rw [howner]
    rfl
  have hfits : wholes.lt smallDesk.bucket.capacity (wholes.ofBytes 2) = false := by decide
  exact ⟨hlive smallDesk rfl, hfits, by decide,
    request_agrees_with_try wholes (hlive smallDesk rfl) (.inr (.inr hfits)) [⟨7, .cancel⟩],
    by decide, request_agrees_with_try wholes (hlive laterDesk rfl) (.inr (.inr hfits)) []⟩

end Pacer

end LakeUpload
