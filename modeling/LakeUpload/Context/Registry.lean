import LakeUpload.Context.CallContext

/-!
# Sources and contexts over time

A registry holds the sources and contexts that were made so far, each kind numbered in order of
creation. `Step` lists everything that can happen to them, and a history is a list of steps.
-/

namespace LakeUpload

structure Registry where
  flags : Flags := {}
  sources : List CancelSource := []
  contexts : List CallContext := []
  now : Int := 0
  deriving DecidableEq, Repr

namespace Registry

inductive Step where
  /-- A new source with a new flag. -/
  | source
  /-- A new source takes over what an old one holds. -/
  | move (source : Nat)
  /-- An old source takes over what another one holds, and drops its own. -/
  | assign (source target : Nat)
  | destroy (source : Nat)
  | cancel (source : Nat)
  /-- A new context of a source. -/
  | context (source : Nat)
  | background
  | timeout (context : Nat) (nanos : Int)
  | deadline (context : Nat) (instant : Int)
  | copy (context : Nat)
  | advance (nanos : Int)
  deriving DecidableEq, Repr

def sourceAt (registry : Registry) (index : Nat) : CancelSource :=
  registry.sources.getD index .inert

def contextAt (registry : Registry) (index : Nat) : CallContext :=
  registry.contexts.getD index .background

def addContext (registry : Registry) (ctx : CallContext) : Registry :=
  { registry with contexts := registry.contexts ++ [ctx] }

def step (registry : Registry) : Step → Registry
  | .source =>
      { registry with
        flags := registry.flags.grow
        sources := registry.sources ++ [⟨some registry.flags.next⟩] }
  | .move source =>
      { registry with
        sources := registry.sources.set source .inert ++ [registry.sourceAt source] }
  | .assign source target =>
      { registry with
        sources := (registry.sources.set source .inert).set target (registry.sourceAt source) }
  | .destroy source => { registry with sources := registry.sources.set source .inert }
  | .cancel source =>
      { registry with flags := (registry.sourceAt source).cancel registry.flags }
  | .context source => registry.addContext (registry.sourceAt source).context
  | .background => registry.addContext .background
  | .timeout context nanos =>
      registry.addContext ((registry.contextAt context).withTimeout registry.now nanos)
  | .deadline context instant =>
      registry.addContext ((registry.contextAt context).withDeadline instant)
  | .copy context => registry.addContext (registry.contextAt context)
  | .advance nanos => { registry with now := wrap64 (registry.now + nanos) }

def run (registry : Registry) (steps : List Step) : Registry := steps.foldl step registry

theorem run_append (registry : Registry) (first second : List Step) :
    registry.run (first ++ second) = (registry.run first).run second := by
  simp [run]

end Registry

end LakeUpload
