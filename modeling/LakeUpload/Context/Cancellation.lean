/-!
# Cancellation flags

A flag is raised once and stays up. Sources own flags: a source without one is inert, and moving a
source leaves an inert one behind. `Flags` records which of the flags made so far are up.
-/

namespace LakeUpload

structure Flag where
  id : Nat
  deriving DecidableEq, Repr

structure Flags where
  /-- For each flag, in the order in which they were made, whether it is up. -/
  up : List Bool := []
  deriving DecidableEq, Repr

namespace Flags

/-- The flag that is made next. -/
def next (flags : Flags) : Flag := ⟨flags.up.length⟩

/-- One more flag, which is down. -/
def grow (flags : Flags) : Flags := ⟨flags.up ++ [false]⟩

def raise (flags : Flags) (flag : Flag) : Flags := ⟨flags.up.set flag.id true⟩

def isRaised (flags : Flags) (flag : Flag) : Bool := flags.up.getD flag.id false

def has (flags : Flags) (flag : Flag) : Prop := flag.id < flags.up.length

theorem isRaised_raise_self {flags : Flags} {flag : Flag} (h : flags.has flag) :
    (flags.raise flag).isRaised flag = true := by
  simp [raise, isRaised, List.getD_eq_getElem?_getD, show _ < _ from h]

theorem isRaised_raise_of_ne {flags : Flags} {flag other : Flag} (h : flag ≠ other) :
    (flags.raise flag).isRaised other = flags.isRaised other := by
  have hid : flag.id ≠ other.id := fun heq => h (by cases flag; cases other; simp_all)
  simp [raise, isRaised, List.getD_eq_getElem?_getD, hid]

theorem isRaised_raise_of_isRaised {flags : Flags} {flag other : Flag}
    (h : flags.isRaised other = true) : (flags.raise flag).isRaised other = true := by
  by_cases hne : flag = other
  · subst hne
    apply isRaised_raise_self
    apply Classical.byContradiction
    intro hlen
    unfold has at hlen
    simp [isRaised, List.getD_eq_getElem?_getD, List.getElem?_eq_none (Nat.le_of_not_lt hlen)] at h
  · rw [isRaised_raise_of_ne hne, h]

theorem isRaised_grow (flags : Flags) (flag : Flag) :
    flags.grow.isRaised flag = flags.isRaised flag := by
  simp only [grow, isRaised, List.getD_eq_getElem?_getD]
  by_cases h : flag.id < flags.up.length
  · rw [List.getElem?_append_left h]
  · rw [List.getElem?_append_right (Nat.le_of_not_lt h),
      List.getElem?_eq_none (Nat.le_of_not_lt h)]
    cases hk : flag.id - flags.up.length with
    | zero =>
        rfl
    | succ k =>
        rfl

end Flags

/-- The owner of a flag, or an inert leftover. -/
structure CancelSource where
  flag : Option Flag := none
  deriving DecidableEq, Repr

namespace CancelSource

def inert : CancelSource := {}

def cancel (source : CancelSource) (flags : Flags) : Flags :=
  match source.flag with
  | none => flags
  | some flag => flags.raise flag

def isCancelled (source : CancelSource) (flags : Flags) : Bool :=
  source.flag.any flags.isRaised

theorem isRaised_cancel {flags : Flags} {flag : Flag} (h : flags.isRaised flag = true)
    (source : CancelSource) : (source.cancel flags).isRaised flag = true := by
  unfold cancel
  cases source.flag with
  | none =>
      exact h
  | some own =>
      exact Flags.isRaised_raise_of_isRaised h

end CancelSource

end LakeUpload
