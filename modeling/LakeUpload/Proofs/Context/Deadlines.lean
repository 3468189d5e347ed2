import LakeUpload.Proofs.Context.Provenance
import Mathlib.Data.List.Induction
import Mathlib.Order.Bounds.Basic

/-!
# Deadlines over time

A context has the least of the deadlines that were set for it and for those it was derived from.
What a context answers can change twice at most, as long as the clock does not run backwards: once
it is done it is never live again, and once it is cancelled it says so for good.
-/

namespace LakeUpload

namespace CallContext

/-- How the answer of a context can change while time goes on. -/
inductive Turns : Except Fault Unit → Except Fault Unit → Prop where
  | same (answer : Except Fault Unit) : Turns answer answer
  | expired : Turns (.ok ()) (.error (.ofCode .deadlineExceeded))
  | cancelled : Turns (.ok ()) (.error (.ofCode .operationCancelled))
  | overruled : Turns (.error (.ofCode .deadlineExceeded)) (.error (.ofCode .operationCancelled))

theorem isExpired_of_le {ctx : CallContext} {now later : Int} (hle : now ≤ later)
    (h : ctx.isExpired now = true) : ctx.isExpired later = true := by
  unfold isExpired at h ⊢
  cases hdeadline : ctx.deadline with
  | none =>
      simp [hdeadline] at h
  | some deadline =>
      simp only [hdeadline, Option.any_some, decide_eq_true_eq] at h ⊢
      omega

theorem turns_check {ctx : CallContext} {flags flags' : Flags} {now later : Int}
    (hflags : ∀ flag, flags.isRaised flag = true → flags'.isRaised flag = true)
    (hle : now ≤ later) : Turns (ctx.check flags now) (ctx.check flags' later) := by
  unfold check
  cases hcancelled : ctx.isCancelled flags with
  | true =>
      rw [isCancelled_of_imp hflags hcancelled]
      exact .same _
  | false =>
      cases hexpired : ctx.isExpired now with
      | true =>
          rw [isExpired_of_le hle hexpired]
          cases ctx.isCancelled flags' with
          | true =>
              exact .overruled
          | false =>
              exact .same _
      | false =>
          cases ctx.isCancelled flags' with
          | true =>
              exact .cancelled
          | false =>
              cases ctx.isExpired later with
              | true =>
                  exact .expired
              | false =>
                  exact .same _

/-- Time is left exactly until the deadline where the difference of the two is in the range of the
clock, and nowhere else. -/
theorem isExpired_iff_remaining_iff {ctx : CallContext} {now : Int}
    (hnow : Clock.first ≤ now ∧ now ≤ Clock.last)
    (hdeadline : ∀ deadline, ctx.deadline = some deadline →
      Clock.first ≤ deadline ∧ deadline ≤ Clock.last) :
    (ctx.isExpired now = true ↔ ctx.remaining now = some 0) ↔
      ∀ deadline, ctx.deadline = some deadline →
        Clock.first ≤ deadline - now ∧ deadline - now ≤ Clock.last := by
  cases hctx : ctx.deadline with
  | none =>
      simp [isExpired, remaining, hctx]
  | some deadline =>
      have hrange := hdeadline deadline hctx
      simp only [isExpired, remaining, hctx, Option.any_some, Option.map_some, Option.some.injEq,
        decide_eq_true_eq, forall_eq']
      by_cases hlow : Clock.first ≤ deadline - now
      · by_cases hhigh : deadline - now ≤ Clock.last
        · rw [wrap64_eq_self hlow hhigh]
          omega
        · -- a deadline far ahead seems to have passed
          have hturn : deadline - now - 0x10000000000000000 < 0 := by
            unfold Clock.first Clock.last at *
            omega
          have hlast : 0 < Clock.last := by decide
          rw [wrap64_of_last_lt (Int.not_le.1 hhigh) (by omega)]
          omega
      · -- a deadline long past seems to be far ahead
        have hturn : 0 < deadline - now + 0x10000000000000000 := by
          unfold Clock.first Clock.last at *
          omega
        have hfirst : Clock.first < 0 := by decide
        rw [wrap64_of_lt_first (by omega) (Int.not_le.1 hlow)]
        omega

end CallContext

namespace Registry

/-! ## Times within the range -/

/-- The registry that a history leads to, by a clock that shows this instant at first. -/
def since (start : Int) (steps : List Step) : Registry := run { now := start } steps

theorem since_append (start : Int) (first second : List Step) :
    since start (first ++ second) = (since start first).run second := run_append _ _ _

theorem since_concat (start : Int) (steps : List Step) (step : Step) :
    since start (steps ++ [step]) = (since start steps).step step := by
  rw [since_append]
  rfl

/-- The clock does not run backwards, and it can show all the times that a step speaks of. -/
def Allows (registry : Registry) : Step → Prop
  | .advance nanos => 0 ≤ nanos ∧ registry.now + nanos ≤ Clock.last
  | .timeout _ nanos =>
      Clock.first ≤ registry.now + nanos ∧ registry.now + nanos ≤ Clock.last
  | .deadline _ instant => Clock.first ≤ instant ∧ instant ≤ Clock.last
  | _ => True

instance (registry : Registry) (step : Step) : Decidable (registry.Allows step) := by
  cases step <;> unfold Allows <;> infer_instance

/-- Each step of the list is allowed when its turn comes. -/
def AllowsAll (registry : Registry) : List Step → Prop
  | [] => True
  | step :: rest => registry.Allows step ∧ (registry.step step).AllowsAll rest

instance decidableAllowsAll (registry : Registry) :
    (steps : List Step) → Decidable (registry.AllowsAll steps)
  | [] => isTrue trivial
  | step :: rest =>
      have := decidableAllowsAll (registry.step step) rest
      inferInstanceAs (Decidable (_ ∧ _))

theorem allowsAll_append {registry : Registry} {first second : List Step} :
    registry.AllowsAll (first ++ second) ↔
      registry.AllowsAll first ∧ (registry.run first).AllowsAll second := by
  induction first generalizing registry with
  | nil =>
      simp [AllowsAll, run]
  | cons step rest ih =>
      rw [List.cons_append, AllowsAll, AllowsAll, ih, and_assoc]
      rfl

/-- A history whose times are all in the range of the clock. -/
structure InRange (start : Int) (steps : List Step) : Prop where
  first : Clock.first ≤ start
  last : start ≤ Clock.last
  allowed : AllowsAll { now := start } steps

theorem InRange.init {start : Int} {steps : List Step} {step : Step}
    (h : InRange start (steps ++ [step])) :
    InRange start steps ∧ (since start steps).Allows step := by
  obtain ⟨hsteps, hstep, -⟩ := allowsAll_append.1 h.allowed
  exact ⟨⟨h.first, h.last, hsteps⟩, hstep⟩

theorem now_step {registry : Registry} {step : Step}
    (hfirst : Clock.first ≤ registry.now) (hlast : registry.now ≤ Clock.last)
    (h : registry.Allows step) :
    registry.now ≤ (registry.step step).now ∧ (registry.step step).now ≤ Clock.last := by
  cases step with
  | advance nanos =>
      obtain ⟨hnanos, hsum⟩ := h
      have hnow : (registry.step (.advance nanos)).now = registry.now + nanos :=
        wrap64_eq_self (by omega) hsum
      omega
  | source | move | assign | destroy | cancel | context | background | timeout | deadline | copy =>
      exact ⟨Int.le_refl _, hlast⟩

theorem now_run {registry : Registry} {steps : List Step}
    (hfirst : Clock.first ≤ registry.now) (hlast : registry.now ≤ Clock.last)
    (h : registry.AllowsAll steps) :
    registry.now ≤ (registry.run steps).now ∧ (registry.run steps).now ≤ Clock.last := by
  induction steps generalizing registry with
  | nil =>
      exact ⟨Int.le_refl _, hlast⟩
  | cons step rest ih =>
      have hstep := now_step hfirst hlast h.1
      have hrest := @ih (registry.step step) (by omega) hstep.2 h.2
      exact ⟨Int.le_trans hstep.1 hrest.1, hrest.2⟩

theorem InRange.now {start : Int} {steps : List Step} (h : InRange start steps) :
    Clock.first ≤ (since start steps).now ∧ (since start steps).now ≤ Clock.last := by
  have hnow := @now_run { now := start } steps h.first h.last h.allowed
  exact ⟨Int.le_trans h.first hnow.1, hnow.2⟩

/-! ## Flags and contexts that stay -/

theorem isRaised_run {registry : Registry} {flag : Flag}
    (h : registry.flags.isRaised flag = true) (steps : List Step) :
    (registry.run steps).flags.isRaised flag = true := by
  induction steps generalizing registry with
  | nil =>
      exact h
  | cons step rest ih =>
      refine @ih (registry.step step) ?_
      cases step with
      | source =>
          rw [← h]
          exact Flags.isRaised_grow _ _
      | cancel source =>
          exact CancelSource.isRaised_cancel h _
      | move | assign | destroy | context | background | timeout | deadline | copy | advance =>
          exact h

/-- The context that a step makes, if it makes one. -/
def made (registry : Registry) : Step → CallContext
  | .context source => (registry.sourceAt source).context
  | .timeout parent nanos => (registry.contextAt parent).withTimeout registry.now nanos
  | .deadline parent instant => (registry.contextAt parent).withDeadline instant
  | .copy parent => registry.contextAt parent
  | _ => .background

theorem contextAt_length (registry : Registry) :
    registry.contextAt registry.contexts.length = .background := by
  simp [contextAt]

theorem contextAt_step (registry : Registry) (step : Step) (index : Nat) :
    (registry.step step).contextAt index =
      if index = registry.contexts.length then registry.made step
      else registry.contextAt index := by
  cases step with
  | context | background | timeout | deadline | copy =>
      exact contextAt_addContext registry _ index
  | source | move | assign | destroy | cancel | advance =>
      split
      · rename_i heq
        rw [heq]
        exact contextAt_length registry
      · rfl

theorem contextAt_run {registry : Registry} {index : Nat}
    (h : index < registry.contexts.length) (steps : List Step) :
    (registry.run steps).contextAt index = registry.contextAt index := by
  induction steps generalizing registry with
  | nil =>
      rfl
  | cons step rest ih =>
      have hlength := length_contexts_step registry step
      have hrest := @ih (registry.step step) (by omega)
      rw [contextAt_step, if_neg (Nat.ne_of_lt h)] at hrest
      exact hrest

/-! ## Deadlines that were set -/

/-- The deadline that a step sets, by a clock that shows this instant. -/
def Step.deadline? (now : Int) : Step → Option Int
  | .timeout _ nanos => some (now + nanos)
  | .deadline _ instant => some instant
  | _ => none

/-- The deadline was set when the context was made, or one that it was derived from. -/
inductive Contributed (start : Int) : List Step → Nat → Int → Prop where
  | set {steps : List Step} {step : Step} {deadline : Int}
      (hset : step.deadline? (since start steps).now = some deadline) :
      Contributed start (steps ++ [step]) (since start steps).contexts.length deadline
  | derived {steps : List Step} {step : Step} {parent : Nat} {deadline : Int}
      (hparent : step.parent? = some parent) (h : Contributed start steps parent deadline) :
      Contributed start (steps ++ [step]) (since start steps).contexts.length deadline
  | kept {steps : List Step} {index : Nat} {deadline : Int} (step : Step)
      (h : Contributed start steps index deadline) :
      Contributed start (steps ++ [step]) index deadline

variable {start : Int}

theorem not_contributed_nil (index : Nat) (deadline : Int) :
    ¬ Contributed start [] index deadline := by
  intro h
  generalize hall : ([] : List Step) = all at h
  cases h <;> simp at hall

theorem contributed_concat {steps : List Step} {step : Step} {index : Nat} {deadline : Int} :
    Contributed start (steps ++ [step]) index deadline ↔
      Contributed start steps index deadline ∨ index = (since start steps).contexts.length ∧
        (step.deadline? (since start steps).now = some deadline ∨
          ∃ parent, step.parent? = some parent ∧ Contributed start steps parent deadline) := by
  constructor
  · intro h
    generalize hall : steps ++ [step] = all at h
    cases h with
    | set hset =>
        obtain ⟨rfl, hstep⟩ := List.append_inj' hall rfl
        rw [← List.head_eq_of_cons_eq hstep] at hset
        exact .inr ⟨rfl, .inl hset⟩
    | derived hparent h =>
        obtain ⟨rfl, hstep⟩ := List.append_inj' hall rfl
        rw [← List.head_eq_of_cons_eq hstep] at hparent
        exact .inr ⟨rfl, .inr ⟨_, hparent, h⟩⟩
    | kept last h =>
        obtain ⟨rfl, -⟩ := List.append_inj' hall rfl
        exact .inl h
  · intro h
    cases h with
    | inl hkept =>
        exact .kept step hkept
    | inr hnew =>
        obtain ⟨rfl, hnew⟩ := hnew
        cases hnew with
        | inl hset =>
            exact .set hset
        | inr hderived =>
            obtain ⟨parent, hparent, hcontributed⟩ := hderived
            exact .derived hparent hcontributed

/-- The deadline is the least of these, and there is none where they are none. -/
def IsLeastOf (deadlines : Set Int) : Option Int → Prop
  | none => deadlines = ∅
  | some deadline => IsLeast deadlines deadline

theorem isLeastOf_none {deadlines : Set Int} : IsLeastOf deadlines none ↔ deadlines = ∅ := Iff.rfl

theorem isLeastOf_withDeadline {ctx : CallContext} {deadlines : Set Int}
    (h : IsLeastOf deadlines ctx.deadline) (deadline : Int) :
    IsLeastOf (insert deadline deadlines) (ctx.withDeadline deadline).deadline := by
  unfold CallContext.withDeadline
  cases hctx : ctx.deadline with
  | none =>
      rw [hctx, isLeastOf_none] at h
      rw [h, insert_empty_eq]
      exact isLeast_singleton
  | some earlier =>
      rw [hctx] at h
      exact IsLeast.insert deadline h

theorem IsLeastOf.eq_some_iff {deadlines : Set Int} {found : Option Int}
    (h : IsLeastOf deadlines found) (deadline : Int) :
    found = some deadline ↔ IsLeast deadlines deadline := by
  cases found with
  | none =>
      rw [isLeastOf_none] at h
      simp [h, IsLeast]
  | some least =>
      rw [Option.some.injEq]
      constructor
      · intro heq
        exact heq ▸ h
      · intro hleast
        exact IsLeast.unique h hleast

theorem IsLeastOf.eq_none_iff {deadlines : Set Int} {found : Option Int}
    (h : IsLeastOf deadlines found) : found = none ↔ ∀ deadline, deadline ∉ deadlines := by
  cases found with
  | none =>
      rw [isLeastOf_none] at h
      simp [h]
  | some least =>
      have hleast : IsLeast deadlines least := h
      simp only [reduceCtorEq, false_iff, not_forall, not_not]
      exact ⟨least, hleast.1⟩

/-- A new context has the deadlines of its parent and the one that is set for it. -/
theorem isLeastOf_made {registry : Registry} {step : Step} (hallowed : registry.Allows step)
    {deadlines : Nat → Set Int}
    (h : ∀ index, IsLeastOf (deadlines index) (registry.contextAt index).deadline) :
    IsLeastOf {deadline | step.deadline? registry.now = some deadline ∨
      ∃ parent, step.parent? = some parent ∧ deadline ∈ deadlines parent}
      (registry.made step).deadline := by
  cases step with
  | timeout parent nanos =>
      have hset : {deadline | some (registry.now + nanos) = some deadline ∨
          ∃ other, some parent = some other ∧ deadline ∈ deadlines other} =
          insert (registry.now + nanos) (deadlines parent) := by
        ext deadline
        simp [eq_comm]
      have hwrap := wrap64_eq_self hallowed.1 hallowed.2
      simp only [Step.deadline?, Step.parent?, made, CallContext.withTimeout, hset, hwrap]
      exact isLeastOf_withDeadline (h parent) _
  | deadline parent instant =>
      have hset : {deadline | some instant = some deadline ∨
          ∃ other, some parent = some other ∧ deadline ∈ deadlines other} =
          insert instant (deadlines parent) := by
        ext deadline
        simp [eq_comm]
      simp only [Step.deadline?, Step.parent?, made, hset]
      exact isLeastOf_withDeadline (h parent) _
  | copy parent =>
      simpa [Step.deadline?, Step.parent?, made] using h parent
  | source | move | assign | destroy | cancel | context | background | advance =>
      simp [Step.deadline?, Step.parent?, made, IsLeastOf, CancelSource.context,
        CallContext.background]

theorem isLeastOf_contributed {steps : List Step} (h : InRange start steps) (index : Nat) :
    IsLeastOf {deadline | Contributed start steps index deadline}
      ((since start steps).contextAt index).deadline := by
  induction steps using List.reverseRecOn generalizing index with
  | nil =>
      simp [not_contributed_nil, since, run, contextAt, CallContext.background, IsLeastOf]
  | append_singleton steps step ih =>
      obtain ⟨hsteps, hallowed⟩ := h.init
      have hnone : ∀ deadline,
          ¬ Contributed start steps (since start steps).contexts.length deadline := by
        have hlength := ih hsteps (since start steps).contexts.length
        rw [contextAt_length] at hlength
        exact hlength.eq_none_iff.1 rfl
      rw [since_concat, contextAt_step]
      by_cases hindex : index = (since start steps).contexts.length
      · have hmade := isLeastOf_made hallowed (ih hsteps)
        rw [if_pos hindex]
        simpa only [contributed_concat, hindex, hnone, false_or, true_and, Set.mem_ofPred_eq] using
          hmade
      · rw [if_neg hindex]
        simpa only [contributed_concat, hindex, false_and, or_false] using ih hsteps index

/-- Deadlines that were set within the range of the clock lie in it. -/
theorem Contributed.range {steps : List Step} {index : Nat} {deadline : Int}
    (h : Contributed start steps index deadline) (hrange : InRange start steps) :
    Clock.first ≤ deadline ∧ deadline ≤ Clock.last := by
  induction h with
  | @set steps step deadline hset =>
      have hallowed := hrange.init.2
      cases step with
      | timeout parent nanos =>
          cases hset
          exact hallowed
      | deadline parent instant =>
          cases hset
          exact hallowed
      | source | move | assign | destroy | cancel | context | background | copy | advance =>
          cases hset
  | derived _ _ ih =>
      exact ih hrange.init.1
  | kept _ _ ih =>
      exact ih hrange.init.1

/-! ## What contexts answer over time -/

/-- What the context of this number says when it is asked now. -/
def deadlineAt (registry : Registry) (index : Nat) : Option Int :=
  (registry.contextAt index).deadline

def expiredAt (registry : Registry) (index : Nat) : Bool :=
  (registry.contextAt index).isExpired registry.now

def doneAt (registry : Registry) (index : Nat) : Bool :=
  (registry.contextAt index).isDone registry.flags registry.now

def remainingAt (registry : Registry) (index : Nat) : Option Int :=
  (registry.contextAt index).remaining registry.now

def checkAt (registry : Registry) (index : Nat) : Except Fault Unit :=
  (registry.contextAt index).check registry.flags registry.now

/-- The child was made from the parent, which was there before. -/
def DerivedFrom (start : Int) (steps : List Step) (parent child : Nat) : Prop :=
  ∃ first step later, steps = first ++ step :: later ∧ step.parent? = some parent ∧
    parent < (since start first).contexts.length ∧ child = (since start first).contexts.length

theorem DerivedFrom.append {steps : List Step} {parent child : Nat}
    (h : DerivedFrom start steps parent child) (later : List Step) :
    DerivedFrom start (steps ++ later) parent child := by
  obtain ⟨first, step, middle, rfl, hparent, hlt, hchild⟩ := h
  exact ⟨first, step, middle ++ later, by simp, hparent, hlt, hchild⟩

theorem isDone_made {registry : Registry} {step : Step} {parent : Nat}
    (hparent : step.parent? = some parent) {flags : Flags} {now : Int}
    (h : (registry.contextAt parent).isDone flags now = true) :
    (registry.made step).isDone flags now = true := by
  cases step with
  | timeout other nanos =>
      cases hparent
      simp only [made, CallContext.withTimeout, CallContext.isDone_withDeadline, h, Bool.true_or]
  | deadline other instant =>
      cases hparent
      simp only [made, CallContext.isDone_withDeadline, h, Bool.true_or]
  | copy other =>
      cases hparent
      exact h
  | source | move | assign | destroy | cancel | context | background | advance =>
      cases hparent

theorem lt_length_step_of_parent {registry : Registry} {step : Step} {parent : Nat}
    (hparent : step.parent? = some parent) :
    registry.contexts.length < (registry.step step).contexts.length := by
  cases step with
  | timeout | deadline | copy =>
      simp [Registry.step, addContext]
  | source | move | assign | destroy | cancel | context | background | advance =>
      cases hparent

/-- The child is done as soon as the parent is, whatever the clock has done. -/
theorem DerivedFrom.doneAt {steps : List Step} {parent child : Nat}
    (h : DerivedFrom start steps parent child)
    (hdone : (since start steps).doneAt parent = true) :
    (since start steps).doneAt child = true := by
  obtain ⟨first, step, later, rfl, hparent, hlt, rfl⟩ := h
  have hchild := @lt_length_step_of_parent (since start first) step parent hparent
  rw [List.append_cons, since_append, since_concat] at hdone ⊢
  unfold Registry.doneAt at hdone ⊢
  rw [contextAt_run (Nat.lt_trans hlt hchild), contextAt_step, if_neg (Nat.ne_of_lt hlt)] at hdone
  rw [contextAt_run hchild, contextAt_step, if_pos rfl]
  exact isDone_made hparent hdone

/-- What deadlines do at the end of a history and ever after. The time that is left is told rightly
unless the deadline is further away than the clock can count. -/
structure Tightens (start : Int) (steps : List Step) : Prop where
  least : ∀ index deadline, (since start steps).deadlineAt index = some deadline ↔
    IsLeast {deadline | Contributed start steps index deadline} deadline
  absent : ∀ index, (since start steps).deadlineAt index = none ↔
    ∀ deadline, ¬ Contributed start steps index deadline
  derived : ∀ parent child, DerivedFrom start steps parent child → ∀ later,
    (since start (steps ++ later)).doneAt parent = true →
      (since start (steps ++ later)).doneAt child = true
  done : ∀ index, (since start steps).doneAt index = true ↔
    ∃ fault, (since start steps).checkAt index = .error fault
  expired : ∀ index, ((since start steps).expiredAt index = true ↔
      (since start steps).remainingAt index = some 0) ↔
    ∀ deadline, (since start steps).deadlineAt index = some deadline →
      Clock.first ≤ deadline - (since start steps).now ∧
        deadline - (since start steps).now ≤ Clock.last
  lasting : ∀ later, (since start steps).AllowsAll later →
    ∀ index, index < (since start steps).contexts.length →
      CallContext.Turns ((since start steps).checkAt index)
        ((since start (steps ++ later)).checkAt index)

/-- Deadlines only come closer, and a context that is done stays done. -/
theorem deadlines_tighten {steps : List Step} (h : InRange start steps) :
    Tightens start steps := by
  have hleast := isLeastOf_contributed h
  constructor
  · intro index deadline
    exact (hleast index).eq_some_iff deadline
  · intro index
    exact (hleast index).eq_none_iff
  · intro parent child hderived later hdone
    exact (hderived.append later).doneAt hdone
  · intro index
    exact CallContext.isDone_iff_check
  · intro index
    apply CallContext.isExpired_iff_remaining_iff h.now
    intro deadline hdeadline
    have hset := (((hleast index).eq_some_iff deadline).1 hdeadline).1
    exact Contributed.range hset h
  · intro later hlater index hindex
    unfold checkAt
    rw [since_append, contextAt_run hindex]
    apply CallContext.turns_check
    · intro flag hraised
      exact isRaised_run hraised later
    · exact (now_run h.now.1 h.now.2 hlater).1

/-- A timeout, a later deadline, a negative timeout and a copy, before the source is cancelled. -/
def smallHistory : List Step :=
  [.source, .context 0, .timeout 0 100, .advance 10, .deadline 1 200, .timeout 2 (-3), .copy 3,
    .cancel 0]

theorem smallHistory_tightens :
    InRange 5 smallHistory ∧ Tightens 5 smallHistory ∧
      (since 5 smallHistory).contexts.map (·.deadline) =
        [none, some 105, some 105, some 12, some 12] :=
  have hrange : InRange 5 smallHistory := ⟨by decide, by decide, by decide⟩
  ⟨hrange, deadlines_tighten hrange, by decide⟩

/-- The time since the first instant of the clock does not fit into its range, and a context that
expired then has all the time in the world left. -/
theorem not_always_zero_once_expired :
    ¬ ∀ (start : Int) (steps : List Step), InRange start steps → ∀ index,
      (since start steps).expiredAt index = true ↔
        (since start steps).remainingAt index = some 0 := by
  intro h
  have hzero := (h 0 [.background, .deadline 0 Clock.first, .advance 1]
    ⟨by decide, by decide, by decide⟩ 1).1 (by decide)
  revert hzero
  decide

end Registry

end LakeUpload
