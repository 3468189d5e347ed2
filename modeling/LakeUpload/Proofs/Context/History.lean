import LakeUpload.Context.Registry

/-!
# What a history says of flags

Sources, contexts and flags are numbered in the order in which a history makes them. From the steps
alone it follows who holds a flag after them (`Held`), which flag a context comes from (`Origin`)
and whether the holder of a flag was ever cancelled (`FlagCancelled`). No registry has a part in
this.
-/

namespace LakeUpload

namespace Registry

/-! ## Numbers -/

def Step.makesFlag : Step → Bool
  | .source => true
  | _ => false

def Step.makesSource : Step → Bool
  | .source => true
  | .move _ => true
  | _ => false

def Step.makesContext : Step → Bool
  | .context _ => true
  | .background => true
  | .timeout _ _ => true
  | .deadline _ _ => true
  | .copy _ => true
  | _ => false

def flagCount (steps : List Step) : Nat := steps.countP Step.makesFlag

def sourceCount (steps : List Step) : Nat := steps.countP Step.makesSource

def contextCount (steps : List Step) : Nat := steps.countP Step.makesContext

theorem flagCount_concat (steps : List Step) (step : Step) :
    flagCount (steps ++ [step]) = flagCount steps + if step.makesFlag then 1 else 0 := by
  rw [flagCount, List.countP_append, List.countP_singleton, flagCount]

theorem sourceCount_concat (steps : List Step) (step : Step) :
    sourceCount (steps ++ [step]) = sourceCount steps + if step.makesSource then 1 else 0 := by
  rw [sourceCount, List.countP_append, List.countP_singleton, sourceCount]

theorem contextCount_concat (steps : List Step) (step : Step) :
    contextCount (steps ++ [step]) = contextCount steps + if step.makesContext then 1 else 0 := by
  rw [contextCount, List.countP_append, List.countP_singleton, contextCount]

theorem contextCount_le_append (steps later : List Step) :
    contextCount steps ≤ contextCount (steps ++ later) := by
  rw [contextCount, contextCount, List.countP_append]
  exact Nat.le_add_right _ _

/-- The flag that a new source is made with. -/
def nextFlag (steps : List Step) : Flag := ⟨flagCount steps⟩

/-- The history has made the flag. -/
def Known (steps : List Step) (flag : Flag) : Prop := flag.id < flagCount steps

theorem not_known_nextFlag (steps : List Step) : ¬ Known steps (nextFlag steps) :=
  Nat.lt_irrefl _

theorem known_nextFlag (steps : List Step) : Known (steps ++ [.source]) (nextFlag steps) := by
  rw [Known, flagCount_concat]
  exact Nat.lt_succ_self _

theorem Known.concat {steps : List Step} {flag : Flag} (h : Known steps flag) (step : Step) :
    Known (steps ++ [step]) flag := by
  rw [Known, flagCount_concat]
  exact Nat.lt_add_right _ h

/-! ## Holders -/

/-- Who has, after a step, what a source had before it, if there were so many sources; nobody where
it is lost. A source that is assigned to itself keeps what it has. -/
def Step.handsTo (count : Nat) : Step → Nat → Option Nat
  | .move moved, holder => some (if holder = moved then count else holder)
  | .assign moved target, holder =>
      if holder = moved then if target < count then some target else none
      else if holder = target then none
      else some holder
  | .destroy emptied, holder => if holder = emptied then none else some holder
  | _, holder => some holder

/-- A source holds the flag that it was made with, until it is handed on or lost. -/
inductive Held : List Step → Nat → Flag → Prop where
  | made (steps : List Step) : Held (steps ++ [.source]) (sourceCount steps) (nextFlag steps)
  | handed {steps : List Step} {step : Step} {holder source : Nat} {flag : Flag}
      (h : Held steps holder flag) (hto : step.handsTo (sourceCount steps) holder = some source) :
      Held (steps ++ [step]) source flag

theorem not_held_nil (source : Nat) (flag : Flag) : ¬ Held [] source flag := by
  intro h
  generalize hall : ([] : List Step) = all at h
  cases h <;> simp at hall

theorem held_concat {steps : List Step} {step : Step} {source : Nat} {flag : Flag} :
    Held (steps ++ [step]) source flag ↔
      (step = .source ∧ source = sourceCount steps ∧ flag = nextFlag steps) ∨
        ∃ holder, Held steps holder flag ∧
          step.handsTo (sourceCount steps) holder = some source := by
  constructor
  · intro h
    generalize hall : steps ++ [step] = all at h
    cases h with
    | made first =>
        obtain ⟨rfl, hstep⟩ := List.append_inj' hall rfl
        exact .inl ⟨List.head_eq_of_cons_eq hstep, rfl, rfl⟩
    | handed hheld hto =>
        obtain ⟨rfl, hstep⟩ := List.append_inj' hall rfl
        rw [← List.head_eq_of_cons_eq hstep] at hto
        exact .inr ⟨_, hheld, hto⟩
  · rintro (⟨rfl, rfl, rfl⟩ | ⟨holder, hheld, hto⟩)
    · exact .made steps
    · exact .handed hheld hto

theorem Held.known {steps : List Step} {source : Nat} {flag : Flag} (h : Held steps source flag) :
    Known steps flag := by
  induction h with
  | made steps =>
      exact known_nextFlag steps
  | handed _ _ ih =>
      exact ih.concat _

/-- Flags are handed from one source to one other, so none has two holders. -/
theorem Held.unique {steps : List Step} {first second : Nat} {flag : Flag}
    (h : Held steps first flag) (hother : Held steps second flag) : second = first := by
  induction h generalizing second with
  | made steps =>
      rcases held_concat.1 hother with ⟨-, rfl, -⟩ | ⟨holder, hheld, -⟩
      · rfl
      · exact absurd hheld.known (not_known_nextFlag steps)
  | @handed steps step holder source flag hheld hto ih =>
      rcases held_concat.1 hother with ⟨-, -, rfl⟩ | ⟨other, hother, hto'⟩
      · exact absurd hheld.known (not_known_nextFlag steps)
      · obtain rfl := ih hother
        exact Option.some.inj (hto'.symm.trans hto)

/-! ## Origins -/

/-- The context that a step derives its new context from. -/
def Step.parent? : Step → Option Nat
  | .timeout parent _ => some parent
  | .deadline parent _ => some parent
  | .copy parent => some parent
  | _ => none

/-- The flag that a context, or the one it was derived from, was taken from. -/
inductive Origin : List Step → Nat → Flag → Prop where
  | taken {steps : List Step} {source : Nat} {flag : Flag} (hheld : Held steps source flag) :
      Origin (steps ++ [.context source]) (contextCount steps) flag
  | derived {steps : List Step} {step : Step} {context : Nat} {flag : Flag}
      (hparent : step.parent? = some context) (horigin : Origin steps context flag) :
      Origin (steps ++ [step]) (contextCount steps) flag
  | kept {steps : List Step} {context : Nat} {flag : Flag} (step : Step)
      (horigin : Origin steps context flag) : Origin (steps ++ [step]) context flag

theorem not_origin_nil (context : Nat) (flag : Flag) : ¬ Origin [] context flag := by
  intro h
  generalize hall : ([] : List Step) = all at h
  cases h <;> simp at hall

theorem origin_concat {steps : List Step} {step : Step} {context : Nat} {flag : Flag} :
    Origin (steps ++ [step]) context flag ↔
      Origin steps context flag ∨ context = contextCount steps ∧
        ((∃ source, step = .context source ∧ Held steps source flag) ∨
          ∃ parent, step.parent? = some parent ∧ Origin steps parent flag) := by
  constructor
  · intro h
    generalize hall : steps ++ [step] = all at h
    cases h with
    | taken hheld =>
        obtain ⟨rfl, hstep⟩ := List.append_inj' hall rfl
        exact .inr ⟨rfl, .inl ⟨_, List.head_eq_of_cons_eq hstep, hheld⟩⟩
    | derived hparent horigin =>
        obtain ⟨rfl, hstep⟩ := List.append_inj' hall rfl
        rw [← List.head_eq_of_cons_eq hstep] at hparent
        exact .inr ⟨rfl, .inr ⟨_, hparent, horigin⟩⟩
    | kept last horigin =>
        obtain ⟨rfl, -⟩ := List.append_inj' hall rfl
        exact .inl horigin
  · rintro (horigin | ⟨rfl, ⟨source, rfl, hheld⟩ | ⟨parent, hparent, horigin⟩⟩)
    · exact .kept step horigin
    · exact .taken hheld
    · exact .derived hparent horigin

theorem Origin.known {steps : List Step} {context : Nat} {flag : Flag}
    (h : Origin steps context flag) : Known steps flag := by
  induction h with
  | taken hheld =>
      exact hheld.known.concat _
  | derived _ _ ih | kept _ _ ih =>
      exact ih.concat _

/-- Where a context comes from is settled when it is made. -/
theorem origin_append_iff {steps : List Step} {context : Nat} {flag : Flag}
    (hcontext : context < contextCount steps) (later : List Step) :
    Origin (steps ++ later) context flag ↔ Origin steps context flag := by
  induction later generalizing steps with
  | nil =>
      rw [List.append_nil]
  | cons step rest ih =>
      have hlength := contextCount_le_append steps [step]
      have hold : context ≠ contextCount steps := Nat.ne_of_lt hcontext
      rw [List.append_cons, ih (Nat.lt_of_lt_of_le hcontext hlength), origin_concat]
      simp only [hold, false_and, or_false]

/-- A context that exists has been taken from a flag once and for all. -/
theorem Origin.append {steps : List Step} {context : Nat} {flag : Flag}
    (h : Origin steps context flag) (later : List Step) : Origin (steps ++ later) context flag := by
  induction later generalizing steps with
  | nil =>
      rwa [List.append_nil]
  | cons step rest ih =>
      rw [List.append_cons]
      exact ih (h.kept step)

/-! ## Cancellations -/

/-- The source that held the flag at some moment was cancelled then. -/
def FlagCancelled (steps : List Step) (flag : Flag) : Prop :=
  ∃ first later source, steps = first ++ .cancel source :: later ∧ Held first source flag

theorem not_flagCancelled_nil (flag : Flag) : ¬ FlagCancelled [] flag := by
  rintro ⟨first, later, source, hsteps, -⟩
  simp at hsteps

theorem flagCancelled_concat {steps : List Step} {step : Step} {flag : Flag} :
    FlagCancelled (steps ++ [step]) flag ↔
      FlagCancelled steps flag ∨ ∃ source, step = .cancel source ∧ Held steps source flag := by
  constructor
  · rintro ⟨first, later, source, hsteps, hheld⟩
    rcases List.eq_nil_or_concat later with rfl | ⟨before, last, rfl⟩
    · obtain ⟨rfl, hstep⟩ := List.append_inj' hsteps rfl
      exact .inr ⟨source, List.head_eq_of_cons_eq hstep, hheld⟩
    · rw [List.concat_eq_append, ← List.cons_append, ← List.append_assoc] at hsteps
      obtain ⟨rfl, -⟩ := List.append_inj' hsteps rfl
      exact .inl ⟨first, before, source, rfl, hheld⟩
  · rintro (⟨first, later, source, rfl, hheld⟩ | ⟨source, rfl, hheld⟩)
    · exact ⟨first, later ++ [step], source, by simp, hheld⟩
    · exact ⟨steps, [], source, rfl, hheld⟩

theorem FlagCancelled.append {steps : List Step} {flag : Flag} (h : FlagCancelled steps flag)
    (later : List Step) : FlagCancelled (steps ++ later) flag := by
  obtain ⟨first, middle, source, rfl, hheld⟩ := h
  exact ⟨first, middle ++ later, source, by simp, hheld⟩

/-- The flag has been made, and no source holds it. -/
structure Orphan (steps : List Step) (flag : Flag) : Prop where
  known : Known steps flag
  unheld : ∀ source, ¬ Held steps source flag

/-- A source that is destroyed or overwritten leaves its flag without a holder. -/
theorem Held.orphan {steps : List Step} {source : Nat} {flag : Flag} (h : Held steps source flag)
    {step : Step} (hlost : step.handsTo (sourceCount steps) source = none) :
    Orphan (steps ++ [step]) flag := by
  refine ⟨h.known.concat step, ?_⟩
  intro other hheld
  rcases held_concat.1 hheld with ⟨-, -, rfl⟩ | ⟨holder, hholder, hto⟩
  · exact not_known_nextFlag steps h.known
  · obtain rfl := h.unique hholder
    exact Option.some_ne_none other (hto.symm.trans hlost)

theorem Orphan.concat {steps : List Step} {flag : Flag} (h : Orphan steps flag) (step : Step) :
    Orphan (steps ++ [step]) flag := by
  refine ⟨h.known.concat step, ?_⟩
  intro source hheld
  rcases held_concat.1 hheld with ⟨-, -, rfl⟩ | ⟨holder, hholder, -⟩
  · exact not_known_nextFlag steps h.known
  · exact h.unheld holder hholder

theorem Orphan.append {steps : List Step} {flag : Flag} (h : Orphan steps flag)
    (later : List Step) :
    Orphan (steps ++ later) flag ∧
      (FlagCancelled (steps ++ later) flag ↔ FlagCancelled steps flag) := by
  induction later generalizing steps with
  | nil =>
      rw [List.append_nil]
      exact ⟨h, Iff.rfl⟩
  | cons step rest ih =>
      obtain ⟨horphan, hcancelled⟩ := ih (h.concat step)
      rw [List.append_cons]
      refine ⟨horphan, hcancelled.trans (flagCancelled_concat.trans ?_)⟩
      apply or_iff_left
      rintro ⟨source, -, hheld⟩
      exact h.unheld source hheld

end Registry

end LakeUpload
