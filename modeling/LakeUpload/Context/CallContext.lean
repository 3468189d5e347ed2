import LakeUpload.Context.Cancellation
import LakeUpload.Fault
import LakeUpload.Time.Clock

/-!
# Contexts of remote calls

Every remote call runs under a context, which may watch a cancellation flag and may have a
deadline. Contexts that are derived from one another watch the same flag, and a deadline can only
come closer.
-/

namespace LakeUpload

structure CallContext where
  flag : Option Flag := none
  /-- An instant of the steady clock. -/
  deadline : Option Int := none
  deriving DecidableEq, Repr

/-- A context that watches the flag of a source. -/
def CancelSource.context (source : CancelSource) : CallContext := { flag := source.flag }

namespace CallContext

/-- Never cancelled, without a deadline. -/
def background : CallContext := {}

def withDeadline (ctx : CallContext) (deadline : Int) : CallContext :=
  { ctx with
    deadline := match ctx.deadline with
      | none => some deadline
      | some earlier => some (min deadline earlier) }

/-- The sum of the instant and the timeout wraps around at 64 bits. -/
def withTimeout (ctx : CallContext) (now timeout : Int) : CallContext :=
  ctx.withDeadline (wrap64 (now + timeout))

def isCancelled (ctx : CallContext) (flags : Flags) : Bool := ctx.flag.any flags.isRaised

def isExpired (ctx : CallContext) (now : Int) : Bool :=
  ctx.deadline.any fun deadline => deadline ≤ now

def isDone (ctx : CallContext) (flags : Flags) (now : Int) : Bool :=
  ctx.isCancelled flags || ctx.isExpired now

/-- The time left before the deadline, zero once it has passed. -/
def remaining (ctx : CallContext) (now : Int) : Option Int :=
  ctx.deadline.map fun deadline => max (wrap64 (deadline - now)) 0

/-- Why the context is done, if it is; cancellation comes before the deadline. -/
def check (ctx : CallContext) (flags : Flags) (now : Int) : Except Fault Unit :=
  if ctx.isCancelled flags then .error (.ofCode .operationCancelled)
  else if ctx.isExpired now then .error (.ofCode .deadlineExceeded)
  else .ok ()

/-- Whether two contexts watch one flag. -/
def shares (ctx other : CallContext) : Bool := ctx.flag.isSome && ctx.flag == other.flag

theorem check_eq_ok_iff {ctx : CallContext} {flags : Flags} {now : Int} :
    ctx.check flags now = .ok () ↔ ctx.isDone flags now = false := by
  unfold check isDone
  cases ctx.isCancelled flags <;> cases ctx.isExpired now <;> simp

theorem isDone_iff_check {ctx : CallContext} {flags : Flags} {now : Int} :
    ctx.isDone flags now = true ↔ ∃ fault, ctx.check flags now = .error fault := by
  have hlive := @check_eq_ok_iff ctx flags now
  cases hcheck : ctx.check flags now with
  | ok =>
      rw [hcheck, eq_self, true_iff] at hlive
      simp [hlive]
  | error fault =>
      have hdone : ctx.isDone flags now ≠ false := by
        rw [ne_eq, ← hlive, hcheck]
        nofun
      simpa using hdone

/-- A context stays cancelled where its flag stays up. -/
theorem isCancelled_of_imp {ctx : CallContext} {flags flags' : Flags}
    (hflags : ∀ flag, flags.isRaised flag = true → flags'.isRaised flag = true)
    (h : ctx.isCancelled flags = true) : ctx.isCancelled flags' = true := by
  unfold isCancelled at h ⊢
  cases hflag : ctx.flag with
  | none =>
      simp [hflag] at h
  | some flag =>
      rw [hflag] at h
      exact hflags flag h

theorem flag_withDeadline (ctx : CallContext) (deadline : Int) :
    (ctx.withDeadline deadline).flag = ctx.flag := rfl

theorem flag_withTimeout (ctx : CallContext) (now timeout : Int) :
    (ctx.withTimeout now timeout).flag = ctx.flag := rfl

theorem isExpired_withDeadline (ctx : CallContext) (deadline now : Int) :
    (ctx.withDeadline deadline).isExpired now = (ctx.isExpired now || decide (deadline ≤ now)) := by
  unfold isExpired withDeadline
  cases ctx.deadline with
  | none =>
      rfl
  | some earlier =>
      simp only [Option.any_some, ← Bool.decide_or, decide_eq_decide]
      omega

theorem isDone_withDeadline (ctx : CallContext) (deadline : Int) (flags : Flags) (now : Int) :
    (ctx.withDeadline deadline).isDone flags now =
      (ctx.isDone flags now || decide (deadline ≤ now)) := by
  have hcancelled : (ctx.withDeadline deadline).isCancelled flags = ctx.isCancelled flags := rfl
  unfold isDone
  rw [hcancelled, isExpired_withDeadline, Bool.or_assoc]

theorem shares_iff {ctx other : CallContext} :
    ctx.shares other = true ↔ ∃ flag, ctx.flag = some flag ∧ other.flag = some flag := by
  unfold shares
  cases ctx.flag with
  | none =>
      simp
  | some flag =>
      simp only [Option.isSome_some, Bool.true_and, beq_iff_eq]
      constructor
      · intro h
        exact ⟨flag, rfl, h.symm⟩
      · rintro ⟨same, hctx, hother⟩
        rw [hctx, hother]

end CallContext

end LakeUpload
