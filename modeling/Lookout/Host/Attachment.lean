/-
# Attaching the agent to a host

All targets are resolved before anything is registered. Then the hook goes in,
and the host is asked to run the targets, which are loaded already, through
it. If that fails, the hook is taken out again, so a failed attachment leaves
the classes and hooks of the host as they were.
-/

import Lookout.Host.Retransformation

namespace Lookout

/-- How far an attachment got. -/
inductive AttachStage where
  | resolving
  | instrumenting
  deriving DecidableEq

/-- The stage in words. -/
def AttachStage.label : AttachStage → String
  | .resolving => "resolving target classes"
  | .instrumenting => "instrumenting already loaded target classes"

/-- An attachment that failed. -/
structure AttachError where
  stage : AttachStage
  failure : AgentError
  deriving DecidableEq

namespace AttachError

/-- What was being done. -/
def message (error : AttachError) : String := error.stage.label

/-- Everything there is to say about the failure, from what was being done down to
what lies at the bottom of it. -/
def chain (error : AttachError) : List String :=
  error.stage.label :: error.failure.message ::
    (error.failure.cause?.map ClassFileError.message).toList

end AttachError

namespace Host

/-- Find a target among the loaded classes. -/
def resolveTarget (host : Host) (identity : ClassIdentity) : Attempt AgentError String := do
  .note (.resolving identity)
  match host.resolve? identity with
  | some name => return name
  | none =>
    .note (.targetUnavailable identity)
    .fail (.setupTargetMissing identity.binaryName)

/-- Find all targets, in table order, up to the first that is missing. -/
def resolveTargets (host : Host) (registry : TargetRegistry) :
    Attempt AgentError (List String) :=
  registry.targets.mapM fun row => host.resolveTarget row.1

/-- Run loaded classes through the hooks, with the failures of the host seen as
failures of the agent. -/
def retroactivate (host : Host) (names : List String) : Attempt AgentError Unit × Host :=
  let (done, host) := host.retransform names
  (⟨.retransforming names.length :: done.events, done.result.mapError HostError.toAgentError⟩,
    host)

/-- Register the hook for the targets in a table and run the resolved targets
through it, or take it out again. -/
def activate (host : Host) (registry : TargetRegistry) (names : List String) :
    Attempt AgentError Unit × Host :=
  let (number, hooked) := host.addHook (intercept registry)
  let (done, after) := hooked.retroactivate names
  match done.result with
  | .ok () => (⟨done.events ++ [.attached], .ok ()⟩, after)
  | .error failure =>
    (⟨done.events ++ [.attachFailed failure], .error failure⟩, after.removeHook number)

/-- Attach the agent for the targets in a table. -/
def attach (host : Host) (registry : TargetRegistry) : Attempt AttachError Unit × Host :=
  let resolved := host.resolveTargets registry
  let begun := .attaching registry.size :: resolved.events
  match resolved.result with
  | .error failure => (⟨begun, .error ⟨.resolving, failure⟩⟩, host)
  | .ok names =>
    let (done, after) := host.activate registry names
    (⟨begun ++ done.events, done.result.mapError (AttachError.mk .instrumenting)⟩, after)

end Host

end Lookout
