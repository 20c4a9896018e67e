/-
# Intercepting classes as they are loaded

A hook sees every class before it becomes active and decides what data the
host goes on with. The hook of this library instruments targets and passes
every other class through without a word.
-/

import Lookout.Instrumentation.Injection

namespace Lookout

/-- A class that is about to become active. -/
structure ClassLoad where
  /-- Hidden and anonymous classes have no name. -/
  name : Option String
  /-- The bootstrap loader has no name. -/
  loader : Option String
  /-- Whether the class is loaded already and is being run through the hooks again. -/
  redefining : Bool
  data : Bytes
  deriving DecidableEq

/-- The hook that instruments the targets in a table. -/
def intercept (registry : TargetRegistry) (load : ClassLoad) : Attempt AgentError ClassUpdate :=
  match load.name with
  | none => return .unchanged
  | some name =>
    let identity := ClassIdentity.ofName name
    match registry.methodsOf identity with
    | [] => return .unchanged
    | methods => do
      .note (.intercepted identity load.loader load.redefining)
      (Instrumentation.instrument registry load.data identity methods).noteFailure
        (.interceptionFailed identity)

end Lookout
