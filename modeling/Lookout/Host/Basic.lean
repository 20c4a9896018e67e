/-
# A host that runs classes

The host keeps the data of the classes it has loaded, and hooks that every
class is run through. Hooks are arbitrary functions; each registration has a
number of its own, by which it can be removed again, and numbers are never
used twice. Replacing loaded classes is all or nothing.
-/

import Std.Data.TreeMap
import Lookout.Instrumentation.Interception

namespace Lookout

/-- A failure of the host. -/
inductive HostError where
  | unmodifiable (className : String)
  | hook (failure : AgentError)
  | rejected (reason : String)
  deriving DecidableEq

namespace HostError

/-- The report for a failure. -/
def message : HostError → String
  | .unmodifiable className => "class " ++ className ++ " is not modifiable"
  | .hook failure => "class file hook failed: " ++ failure.message
  | .rejected reason => reason

/-- The failure as the agent sees it: that of the hook itself, or a refusal. -/
def toAgentError : HostError → AgentError
  | .unmodifiable className =>
    .redefinitionRejected ("class " ++ className ++ " is not modifiable")
  | .hook failure => failure
  | .rejected reason => .redefinitionRejected reason

end HostError

/-- A registered hook. -/
structure ClassHook where
  number : Nat
  transform : ClassLoad → Attempt AgentError ClassUpdate

/-- A host. -/
structure Host where
  classes : Std.TreeMap String Bytes
  /-- In order of registration, which is the order they run in. -/
  hooks : List ClassHook
  /-- The failure that the next request to replace classes meets. -/
  rejection : Option HostError
  /-- Requests to replace classes so far, failed ones included. -/
  requests : Nat
  /-- The number for the next hook. -/
  nextNumber : Nat
  number_lt_nextNumber : ∀ hook ∈ hooks, hook.number < nextNumber

namespace Host

/-- A host without classes and hooks. -/
def empty : Host where
  classes := ∅
  hooks := []
  rejection := none
  requests := 0
  nextNumber := 0
  number_lt_nextNumber := by simp

/-- The data of a loaded class. -/
def data? (host : Host) (name : String) : Option Bytes := host.classes[name]?

/-- Take a class as loaded, past all hooks. -/
def preload (host : Host) (name : String) (data : Bytes) : Host :=
  { host with classes := host.classes.insert name data }

/-- Let the next request to replace classes fail. -/
def rejectNext (host : Host) (failure : HostError) : Host :=
  { host with rejection := some failure }

/-- Register a hook behind all others. The number is that of the registration. -/
def addHook (host : Host) (transform : ClassLoad → Attempt AgentError ClassUpdate) : Nat × Host :=
  (host.nextNumber,
    { host with
      hooks := host.hooks ++ [⟨host.nextNumber, transform⟩]
      nextNumber := host.nextNumber + 1
      number_lt_nextNumber := by
        intro hook member
        rcases List.mem_append.mp member with old | new
        · exact Nat.lt_succ_of_lt (host.number_lt_nextNumber hook old)
        · rw [List.mem_singleton.mp new]
          exact Nat.lt_succ_self _ })

/-- Remove the hook with this number, if it is still there. -/
def removeHook (host : Host) (number : Nat) : Host :=
  { host with
    hooks := host.hooks.filter fun hook => hook.number != number
    number_lt_nextNumber := fun hook member =>
      host.number_lt_nextNumber hook (List.mem_filter.mp member).1 }

/-- The name of a class as a loaded class of this host. -/
def resolve? (host : Host) (identity : ClassIdentity) : Option String :=
  if host.classes.contains identity.internalName then some identity.internalName else none

/-- Run data through one hook. -/
def runHook (name : String) (redefining : Bool) (data : Bytes) (hook : ClassHook) :
    Attempt AgentError Bytes := do
  let update ← hook.transform ⟨some name, none, redefining, data⟩
  return update.data data

/-- Run the data of a class through all hooks, each on what the one before it left. -/
def runHooks (host : Host) (name : String) (redefining : Bool) (data : Bytes) :
    Attempt AgentError Bytes :=
  host.hooks.foldlM (runHook name redefining) data

/-- Load a class. If a hook fails, the class is not loaded. -/
def define (host : Host) (name : String) (data : Bytes) : Attempt AgentError Unit × Host :=
  let final := host.runHooks name false data
  match final.result with
  | .ok loaded =>
    (⟨final.events, .ok ()⟩, { host with classes := host.classes.insert name loaded })
  | .error failure => (⟨final.events, .error failure⟩, host)

end Host

end Lookout
