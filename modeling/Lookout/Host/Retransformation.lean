/-
# Replacing loaded classes

A request names loaded classes. Each is run through all hooks from the data it
has, and only if that works for every one of them is any of them replaced.
-/

import Lookout.Host.Basic

namespace Lookout

namespace Host

/-- What a class is to be replaced by. -/
def stage (host : Host) (name : String) : Attempt HostError (String × Bytes) :=
  match host.data? name with
  | none => .fail (.rejected (name ++ " is not loaded"))
  | some data => do
    let replacement ← (host.runHooks name true data).mapError .hook
    return (name, replacement)

/-- Put the replacements in place. -/
def installAll (host : Host) (replacements : List (String × Bytes)) : Host :=
  { host with
    classes := replacements.foldl (fun classes (name, data) => classes.insert name data)
      host.classes }

/-- Run loaded classes through the hooks again and replace them. A pending
rejection is used up by the request that meets it. -/
def retransform (host : Host) (names : List String) : Attempt HostError Unit × Host :=
  let host := { host with requests := host.requests + 1 }
  match host.rejection with
  | some failure => (.fail failure, { host with rejection := none })
  | none =>
    let staged := names.mapM host.stage
    match staged.result with
    | .ok replacements => (⟨staged.events, .ok ()⟩, host.installAll replacements)
    | .error failure => (⟨staged.events, .error failure⟩, host)

end Host

end Lookout
