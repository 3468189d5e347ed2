import LakeUpload.Proofs.Context.History
import LakeUpload.Proofs.Lists

/-!
# Whom a cancellation reaches

The history of a registry says who holds which flag, where contexts come from and which flags were
cancelled. Here the registry is tied to it step by step: its sources hold the flags that were handed
to them, its contexts watch the flags that they come from, and the flags that are up are those whose
holder was cancelled.
-/

namespace LakeUpload

namespace Registry

/-- The registry that a history leads to. -/
def after (steps : List Step) : Registry := run {} steps

theorem after_concat (steps : List Step) (step : Step) :
    after (steps ++ [step]) = (after steps).step step := by
  simp [after, run]

def Holds (registry : Registry) (source : Nat) (flag : Flag) : Prop :=
  (registry.sourceAt source).flag = some flag

/-! ## What a step does to the sources -/

theorem sourceAt_of_length_le {registry : Registry} {index : Nat}
    (h : registry.sources.length ≤ index) : registry.sourceAt index = .inert := by
  rw [sourceAt, List.getD_eq_getElem?_getD, List.getElem?_eq_none h, Option.getD_none]

theorem not_holds_inert (flag : Flag) : CancelSource.inert.flag ≠ some flag := nofun

theorem Holds.lt {registry : Registry} {source : Nat} {flag : Flag}
    (h : registry.Holds source flag) : source < registry.sources.length := by
  apply Classical.byContradiction
  intro hge
  rw [Holds, sourceAt_of_length_le (Nat.le_of_not_lt hge)] at h
  exact not_holds_inert flag h

theorem sourceAt_destroy (registry : Registry) (emptied index : Nat) :
    (registry.step (.destroy emptied)).sourceAt index =
      if index = emptied then .inert else registry.sourceAt index := by
  rw [sourceAt, Registry.step, Lists.getD_set]
  by_cases hindex : index = emptied
  · subst hindex
    rw [if_pos rfl, ite_eq_left_iff]
    intro hge
    exact sourceAt_of_length_le (Nat.le_of_not_lt fun hlt => hge ⟨rfl, hlt⟩)
  · rw [if_neg hindex, if_neg fun h => hindex h.1]
    rfl

theorem sourceAt_source (registry : Registry) (index : Nat) :
    (registry.step .source).sourceAt index =
      if index = registry.sources.length then { flag := some registry.flags.next }
      else registry.sourceAt index :=
  Lists.getD_concat _ _ _ _

theorem sourceAt_move (registry : Registry) (moved index : Nat) :
    (registry.step (.move moved)).sourceAt index =
      if index = registry.sources.length then registry.sourceAt moved
      else if index = moved then .inert
      else registry.sourceAt index := by
  rw [← sourceAt_destroy, sourceAt, Registry.step, Lists.getD_concat, List.length_set]
  rfl

theorem sourceAt_assign (registry : Registry) (moved target index : Nat) :
    (registry.step (.assign moved target)).sourceAt index =
      if index = target ∧ target < registry.sources.length then registry.sourceAt moved
      else if index = moved then .inert
      else registry.sourceAt index := by
  rw [← sourceAt_destroy, sourceAt, Registry.step, Lists.getD_set, List.length_set]
  rfl

theorem step_assign_self (registry : Registry) (source : Nat) :
    registry.step (.assign source source) = registry := by
  have hsources : registry.sources.set source (registry.sourceAt source) = registry.sources := by
    by_cases hlt : source < registry.sources.length
    · rw [sourceAt, List.getD_eq_getElem?_getD, List.getElem?_eq_getElem hlt, Option.getD_some,
        List.set_getElem_self]
    · exact List.set_eq_of_length_le (Nat.le_of_not_lt hlt)
  simp only [Registry.step, List.set_set, hsources]

/-- A source holds what was handed to it, or the flag that it was made with. -/
theorem holds_step_iff {registry : Registry} {step : Step} {source : Nat} {flag : Flag} :
    (registry.step step).Holds source flag ↔
      (step = .source ∧ source = registry.sources.length ∧ flag = registry.flags.next) ∨
        ∃ holder, registry.Holds holder flag ∧
          step.handsTo registry.sources.length holder = some source := by
  have hlt := @Holds.lt registry source flag
  cases step with
  | source =>
      simp only [Holds, Step.handsTo, sourceAt_source] at hlt ⊢
      grind
  | move moved =>
      have hmoved := @Holds.lt registry moved flag
      simp only [Holds, Step.handsTo, sourceAt_move] at hlt hmoved ⊢
      grind [not_holds_inert]
  | assign moved target =>
      simp only [Holds, Step.handsTo, sourceAt_assign] at hlt ⊢
      grind [not_holds_inert]
  | destroy emptied =>
      simp only [Holds, Step.handsTo, sourceAt_destroy] at hlt ⊢
      grind [not_holds_inert]
  | cancel | context | background | timeout | deadline | copy | advance =>
      simp [Registry.step, Step.handsTo, Holds, sourceAt, addContext]

/-! ## What a step does to the flags and the contexts -/

theorem length_sources_step (registry : Registry) (step : Step) :
    (registry.step step).sources.length =
      registry.sources.length + if step.makesSource then 1 else 0 := by
  cases step <;> simp [Registry.step, Step.makesSource, addContext]

theorem length_contexts_step (registry : Registry) (step : Step) :
    (registry.step step).contexts.length =
      registry.contexts.length + if step.makesContext then 1 else 0 := by
  cases step <;> simp [Registry.step, Step.makesContext, addContext]

theorem next_step (registry : Registry) (step : Step) :
    (registry.step step).flags.next =
      ⟨registry.flags.next.id + if step.makesFlag then 1 else 0⟩ := by
  cases step with
  | source =>
      simp [Registry.step, Flags.grow, Flags.next, Step.makesFlag]
  | cancel source =>
      simp only [Registry.step, CancelSource.cancel]
      split <;> simp [Flags.raise, Flags.next, Step.makesFlag]
  | move | assign | destroy | context | background | timeout | deadline | copy | advance =>
      rfl

/-- Only a cancelled holder raises a flag. -/
theorem isRaised_step_iff {registry : Registry}
    (hmade : ∀ source flag, registry.Holds source flag → registry.flags.has flag) {step : Step}
    {flag : Flag} :
    (registry.step step).flags.isRaised flag = true ↔
      registry.flags.isRaised flag = true ∨
        ∃ source, step = .cancel source ∧ registry.Holds source flag := by
  cases step with
  | source =>
      simp [Registry.step, Flags.isRaised_grow]
  | cancel source =>
      simp only [Registry.step, CancelSource.cancel]
      cases hheld : (registry.sourceAt source).flag with
      | none =>
          simp [Holds, hheld]
      | some held =>
          by_cases heq : held = flag
          · subst heq
            have hraised := Flags.isRaised_raise_self (hmade source held hheld)
            simp [Holds, hheld, hraised]
          · simp [Holds, hheld, heq, Flags.isRaised_raise_of_ne heq]
  | move | assign | destroy | context | background | timeout | deadline | copy | advance =>
      simp [Registry.step, addContext]

theorem contextAt_addContext (registry : Registry) (ctx : CallContext) (index : Nat) :
    (registry.addContext ctx).contextAt index =
      if index = registry.contexts.length then ctx else registry.contextAt index :=
  Lists.getD_concat registry.contexts ctx .background index

/-- A new context watches the flag of its source or of its parent. -/
theorem flag_contextAt_step_iff {registry : Registry} {step : Step} {index : Nat} {flag : Flag} :
    ((registry.step step).contextAt index).flag = some flag ↔
      (registry.contextAt index).flag = some flag ∨ index = registry.contexts.length ∧
        ((∃ source, step = .context source ∧ registry.Holds source flag) ∨
          ∃ parent, step.parent? = some parent ∧
            (registry.contextAt parent).flag = some flag) := by
  have hnew : (registry.contextAt registry.contexts.length).flag ≠ some flag := by
    simp [contextAt, CallContext.background]
  cases step with
  | context source =>
      simp only [Registry.step, contextAt_addContext, Holds, CancelSource.context, Step.parent?]
      grind
  | background =>
      simp only [Registry.step, contextAt_addContext, Step.parent?, CallContext.background]
      grind
  | timeout parent =>
      simp only [Registry.step, contextAt_addContext, Step.parent?]
      grind [CallContext.flag_withTimeout]
  | deadline parent =>
      simp only [Registry.step, contextAt_addContext, Step.parent?]
      grind [CallContext.flag_withDeadline]
  | copy parent =>
      simp only [Registry.step, contextAt_addContext, Step.parent?]
      grind
  | source | move | assign | destroy | cancel | advance =>
      simp [Registry.step, contextAt, Step.parent?]

/-! ## A registry and its history -/

/-- The registry is what the history says. -/
structure Traced (steps : List Step) (registry : Registry) : Prop where
  sources : registry.sources.length = sourceCount steps
  contexts : registry.contexts.length = contextCount steps
  next : registry.flags.next = nextFlag steps
  holds : ∀ source flag, registry.Holds source flag ↔ Held steps source flag
  raised : ∀ flag, registry.flags.isRaised flag = true ↔ FlagCancelled steps flag
  watches : ∀ index flag, (registry.contextAt index).flag = some flag ↔ Origin steps index flag

theorem traced_nil : Traced [] (after []) := by
  constructor
  · rfl
  · rfl
  · rfl
  · intro source flag
    exact iff_of_false (fun hholds => Nat.not_lt_zero source hholds.lt) (not_held_nil source flag)
  · intro flag
    exact iff_of_false Bool.false_ne_true (not_flagCancelled_nil flag)
  · intro index flag
    exact iff_of_false nofun (not_origin_nil index flag)

/-- A flag that a source of the registry holds has been made. -/
theorem Traced.has {steps : List Step} {registry : Registry} (h : Traced steps registry)
    {source : Nat} {flag : Flag} (hholds : registry.Holds source flag) :
    registry.flags.has flag := by
  have hknown := ((h.holds source flag).1 hholds).known
  rw [Known, ← show (nextFlag steps).id = flagCount steps from rfl, ← h.next] at hknown
  exact hknown

theorem Traced.concat {steps : List Step} (h : Traced steps (after steps)) (step : Step) :
    Traced (steps ++ [step]) (after (steps ++ [step])) := by
  rw [after_concat]
  constructor
  · rw [length_sources_step, sourceCount_concat, h.sources]
  · rw [length_contexts_step, contextCount_concat, h.contexts]
  · rw [next_step, nextFlag, flagCount_concat, h.next]
    rfl
  · intro source flag
    simp only [holds_step_iff, held_concat, h.holds, h.sources, h.next]
  · intro flag
    simp only [isRaised_step_iff fun _ _ => h.has, flagCancelled_concat, h.raised, h.holds]
  · intro index flag
    simp only [flag_contextAt_step_iff, origin_concat, h.watches, h.holds, h.contexts]

theorem Traced.append {first : List Step} (h : Traced first (after first)) (later : List Step) :
    Traced (first ++ later) (after (first ++ later)) := by
  induction later generalizing first with
  | nil =>
      rwa [List.append_nil]
  | cons step rest ih =>
      rw [List.append_cons]
      exact ih (h.concat step)

theorem traced (steps : List Step) : Traced steps (after steps) := traced_nil.append steps

/-! ## What contexts answer -/

/-- What the context of this number says when it is asked now. -/
def cancelledAt (registry : Registry) (index : Nat) : Bool :=
  (registry.contextAt index).isCancelled registry.flags

def sharedAt (registry : Registry) (first second : Nat) : Bool :=
  (registry.contextAt first).shares (registry.contextAt second)

theorem cancelledAt_iff {steps : List Step} {index : Nat} :
    (after steps).cancelledAt index = true ↔
      ∃ flag, Origin steps index flag ∧ FlagCancelled steps flag := by
  simp only [cancelledAt, CallContext.isCancelled, Option.any_eq_true, ← (traced steps).watches,
    ← (traced steps).raised]

theorem sharedAt_iff {steps : List Step} {first second : Nat} :
    (after steps).sharedAt first second = true ↔
      ∃ flag, Origin steps first flag ∧ Origin steps second flag := by
  simp only [sharedAt, CallContext.shares_iff, (traced steps).watches]

theorem isCancelled_sourceAt_iff {steps : List Step} {source : Nat} :
    ((after steps).sourceAt source).isCancelled (after steps).flags = true ↔
      ∃ flag, Held steps source flag ∧ FlagCancelled steps flag := by
  simp only [CancelSource.isCancelled, Option.any_eq_true, ← (traced steps).holds,
    ← (traced steps).raised, Holds]

theorem Origin.unique {steps : List Step} {index : Nat} {flag other : Flag}
    (h : Origin steps index flag) (hother : Origin steps index other) : flag = other := by
  rw [← (traced steps).watches] at h hother
  exact Option.some.inj (h.symm.trans hother)

/-- A context that does not exist has no origin. -/
theorem not_origin_contextCount (steps : List Step) (flag : Flag) :
    ¬ Origin steps (contextCount steps) flag := by
  rw [← (traced steps).watches, ← (traced steps).contexts]
  simp [contextAt, CallContext.background]

/-- A new context that is not taken from a flag is never cancelled. -/
theorem cancelledAt_of_no_origin {steps : List Step} {step : Step}
    (hmakes : step.makesContext = true)
    (horigin : ∀ flag, ¬ Origin (steps ++ [step]) (contextCount steps) flag) (later : List Step) :
    (after (steps ++ step :: later)).cancelledAt (contextCount steps) = false := by
  have hcontext : contextCount steps < contextCount (steps ++ [step]) := by
    rw [contextCount_concat, if_pos hmakes]
    exact Nat.lt_succ_self _
  rw [← Bool.not_eq_true, cancelledAt_iff, List.append_cons]
  rintro ⟨flag, hlater, -⟩
  exact horigin flag ((origin_append_iff hcontext later).1 hlater)

/-- Whom a cancellation reaches, at the end of a history and ever after. -/
structure Reaches (steps : List Step) : Prop where
  sources : (after steps).sources.length = sourceCount steps
  contexts : (after steps).contexts.length = contextCount steps
  /-- Sources hold the flags that they were made with or that were handed to them. -/
  holds : ∀ source flag, (after steps).Holds source flag ↔ Held steps source flag
  oneHolder : ∀ first second flag, (after steps).Holds first flag →
    (after steps).Holds second flag → first = second
  /-- A new source holds a flag that no source held before and that no context came from. -/
  fresh : ((after (steps ++ [.source])).sourceAt (sourceCount steps)).flag =
      some (nextFlag steps) ∧
    (∀ source, ¬ Held steps source (nextFlag steps)) ∧
    ∀ index, ¬ Origin steps index (nextFlag steps)
  moved : ∀ source, source < sourceCount steps →
    (after (steps ++ [.move source])).sourceAt (sourceCount steps) =
        (after steps).sourceAt source ∧
      (after (steps ++ [.move source])).sourceAt source = .inert
  assigned : ∀ source target, source ≠ target → target < sourceCount steps →
    (after (steps ++ [.assign source target])).sourceAt target = (after steps).sourceAt source ∧
      (after (steps ++ [.assign source target])).sourceAt source = .inert
  selfAssigned : ∀ source, after (steps ++ [.assign source source]) = after steps
  destroyed : ∀ source, (after (steps ++ [.destroy source])).sourceAt source = .inert
  /-- The flag of a source that is destroyed or that takes over another one has no holder. -/
  dropped : ∀ source flag, Held steps source flag →
    Orphan (steps ++ [.destroy source]) flag ∧
      ∀ other, other ≠ source → Orphan (steps ++ [.assign other source]) flag
  /-- A context watches the flag that it comes from, and the others watch none. -/
  watches : ∀ index flag,
    ((after steps).contextAt index).flag = some flag ↔ Origin steps index flag
  cancelled : ∀ index, (after steps).cancelledAt index = true ↔
    ∃ flag, Origin steps index flag ∧ FlagCancelled steps flag
  sourceCancelled : ∀ source,
    ((after steps).sourceAt source).isCancelled (after steps).flags = true ↔
      ∃ flag, Held steps source flag ∧ FlagCancelled steps flag
  lasting : ∀ index, (after steps).cancelledAt index = true →
    ∀ later, (after (steps ++ later)).cancelledAt index = true
  /-- A cancellation reaches the contexts of the flag that the source holds, and no others. -/
  reached : ∀ source index, (after (steps ++ [.cancel source])).cancelledAt index = true ↔
    (after steps).cancelledAt index = true ∨
      ∃ flag, Origin steps index flag ∧ Held steps source flag
  background : ∀ later,
    (after (steps ++ .background :: later)).cancelledAt (contextCount steps) = false
  inert : ∀ source, (∀ flag, ¬ Held steps source flag) → ∀ later,
    (after (steps ++ .context source :: later)).cancelledAt (contextCount steps) = false
  orphan : ∀ flag, Orphan steps flag → ∀ later, Orphan (steps ++ later) flag ∧
    (FlagCancelled (steps ++ later) flag ↔ FlagCancelled steps flag)
  shared : ∀ first second, (after steps).sharedAt first second = true ↔
    ∃ flag, Origin steps first flag ∧ Origin steps second flag
  sharedSymm : ∀ first second, (after steps).sharedAt first second = true →
    (after steps).sharedAt second first = true
  sharedTrans : ∀ first second third, (after steps).sharedAt first second = true →
    (after steps).sharedAt second third = true → (after steps).sharedAt first third = true
  sharedRefl : ∀ index, (after steps).sharedAt index index = true ↔ ∃ flag, Origin steps index flag

/-- Flags are handed on, raised and watched as the history of a registry says. -/
theorem cancellation_reaches (steps : List Step) : Reaches steps := by
  have htraced := traced steps
  have hcount := htraced.sources
  constructor
  case sources =>
    exact htraced.sources
  case contexts =>
    exact htraced.contexts
  case holds =>
    exact htraced.holds
  case oneHolder =>
    intro first second flag hfirst hsecond
    rw [htraced.holds] at hfirst hsecond
    exact hsecond.unique hfirst
  case fresh =>
    refine ⟨?_, fun source hheld => ?_, fun index horigin => ?_⟩
    · rw [after_concat, sourceAt_source, if_pos hcount.symm, htraced.next]
    · exact not_known_nextFlag steps hheld.known
    · exact not_known_nextFlag steps horigin.known
  case moved =>
    intro source hlt
    have hold : source ≠ sourceCount steps := Nat.ne_of_lt hlt
    rw [after_concat, sourceAt_move, sourceAt_move, hcount, if_pos rfl, if_neg hold, if_pos rfl]
    exact ⟨rfl, rfl⟩
  case assigned =>
    intro source target hne hlt
    have hother : ¬ (source = target ∧ target < sourceCount steps) := fun h => hne h.1
    rw [after_concat, sourceAt_assign, sourceAt_assign, hcount, if_pos ⟨rfl, hlt⟩, if_neg hother,
      if_pos rfl]
    exact ⟨rfl, rfl⟩
  case selfAssigned =>
    intro source
    rw [after_concat, step_assign_self]
  case destroyed =>
    intro source
    rw [after_concat, sourceAt_destroy, if_pos rfl]
  case dropped =>
    intro source flag hheld
    refine ⟨hheld.orphan (if_pos rfl), fun other hne => hheld.orphan ?_⟩
    rw [Step.handsTo, if_neg hne.symm, if_pos rfl]
  case watches =>
    exact htraced.watches
  case cancelled =>
    exact fun index => cancelledAt_iff
  case sourceCancelled =>
    exact fun source => isCancelled_sourceAt_iff
  case lasting =>
    intro index hcancelled later
    obtain ⟨flag, horigin, hflag⟩ := cancelledAt_iff.1 hcancelled
    exact cancelledAt_iff.2 ⟨flag, horigin.append later, hflag.append later⟩
  case reached =>
    intro source index
    have horigin (flag : Flag) :
        Origin (steps ++ [.cancel source]) index flag ↔ Origin steps index flag := by
      simp [origin_concat, Step.parent?]
    have hflag (flag : Flag) : FlagCancelled (steps ++ [.cancel source]) flag ↔
        FlagCancelled steps flag ∨ Held steps source flag := by
      simp [flagCancelled_concat]
    simp only [cancelledAt_iff, horigin, hflag, and_or_left, exists_or]
  case background =>
    refine cancelledAt_of_no_origin rfl ?_
    simp [origin_concat, Step.parent?, not_origin_contextCount]
  case inert =>
    intro source hinert
    refine cancelledAt_of_no_origin rfl ?_
    simp [origin_concat, Step.parent?, not_origin_contextCount, hinert]
  case orphan =>
    exact fun flag horphan later => horphan.append later
  case shared =>
    exact fun first second => sharedAt_iff
  case sharedSymm =>
    intro first second hshared
    obtain ⟨flag, hfirst, hsecond⟩ := sharedAt_iff.1 hshared
    exact sharedAt_iff.2 ⟨flag, hsecond, hfirst⟩
  case sharedTrans =>
    intro first second third hshared hshared'
    obtain ⟨flag, hfirst, hsecond⟩ := sharedAt_iff.1 hshared
    obtain ⟨other, hsecond', hthird⟩ := sharedAt_iff.1 hshared'
    rw [hsecond'.unique hsecond] at hthird
    exact sharedAt_iff.2 ⟨flag, hfirst, hthird⟩
  case sharedRefl =>
    intro index
    simp only [sharedAt_iff, and_self]

example : (after [.source, .context 0, .move 0, .assign 1 1, .cancel 0]).cancelledAt 0 = false ∧
    (after [.source, .context 0, .move 0, .assign 1 1, .cancel 1]).cancelledAt 0 = true := by
  decide

end Registry

end LakeUpload
