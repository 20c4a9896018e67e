/-
# Telling what is going on

Work on classes leaves a journal of events, which is kept when the work fails.
An attempt is such a journal together with what came of the work. The journal
never decides anything: the result of a sequence of attempts depends on their
results alone.
-/

import Lookout.Instrumentation.Error

namespace Lookout

/-- How urgent an event is. -/
inductive Severity where
  | debug
  | info
  | warning
  | error
  deriving DecidableEq

/-- Something worth telling. -/
inductive Event where
  | attaching (targets : Nat)
  | resolving (identity : ClassIdentity)
  | targetUnavailable (identity : ClassIdentity)
  | retransforming (classes : Nat)
  | attachFailed (failure : AgentError)
  | attached
  | intercepted (identity : ClassIdentity) (loader : Option String) (redefining : Bool)
  | interceptionFailed (identity : ClassIdentity) (failure : AgentError)
  | instrumenting (methods : Nat) (identity : ClassIdentity)
  | alreadyInstrumented (identity : ClassIdentity) (signature : MethodSignature)
  | inserting (method : String)
  | inserted (identity : ClassIdentity) (signature : MethodSignature) (prologue code : Nat)
  | instrumented (length : Nat)
  deriving DecidableEq

namespace Event

/-- How urgent the event is. -/
def severity : Event → Severity
  | .attaching _ | .retransforming _ | .attached | .instrumenting .. | .inserting _
  | .instrumented _ => .info
  | .resolving _ | .intercepted .. | .alreadyInstrumented .. | .inserted .. => .debug
  | .targetUnavailable _ => .warning
  | .attachFailed _ | .interceptionFailed .. => .error

/-- The event in words. -/
def text : Event → String
  | .attaching targets =>
    "Attaching haltwatch agent (" ++ toString targets ++ " target classes)"
  | .resolving identity => "Resolving " ++ identity.binaryName
  | .targetUnavailable identity => "Target class " ++ identity.binaryName ++ " is not available"
  | .retransforming classes =>
    "Retransforming " ++ toString classes ++ " already loaded classes"
  | .attachFailed failure =>
    "Instrumentation failed, removing class hook: " ++ failure.message
  | .attached => "All bytecode has been instrumented"
  | .intercepted identity loader redefining =>
    "Intercepted " ++ identity.internalName ++ " (loader: " ++ loader.getD "bootstrap" ++
      ", redefining: " ++ (if redefining then "true" else "false") ++ ")"
  | .interceptionFailed identity failure =>
    "Instrumentation of " ++ identity.internalName ++ " failed: " ++ failure.message
  | .instrumenting methods identity =>
    "Instrumenting " ++ toString methods ++ " methods for class " ++ identity.binaryName
  | .alreadyInstrumented identity signature =>
    identity.internalName ++ "." ++ signature.text ++ " is already instrumented, skipping"
  | .inserting method => "Inserting new code to the method " ++ method
  | .inserted identity signature prologue code =>
    identity.internalName ++ "." ++ signature.text ++ ": prologue of " ++ toString prologue ++
      " bytes, code now " ++ toString code ++ " bytes"
  | .instrumented length =>
    "Done! The length of the new bytecode is " ++ toString length

end Event

/-- What was told, and what came of it. -/
structure Attempt (ε α : Type) where
  events : List Event
  result : Except ε α

namespace Attempt

variable {ε α β : Type}

/-- Succeed without telling anything. -/
protected def pure (value : α) : Attempt ε α := ⟨[], .ok value⟩

/-- Go on with the value of a first attempt, if it has one. -/
protected def bind (first : Attempt ε α) (next : α → Attempt ε β) : Attempt ε β :=
  match first.result with
  | .ok value => ⟨first.events ++ (next value).events, (next value).result⟩
  | .error failure => ⟨first.events, .error failure⟩

instance : Monad (Attempt ε) where
  pure := Attempt.pure
  bind := Attempt.bind

/-- Tell of an event. -/
def note (event : Event) : Attempt ε Unit := ⟨[event], .ok ()⟩

/-- Go on with a value that was computed without telling anything. -/
def ofExcept (result : Except ε α) : Attempt ε α := ⟨[], result⟩

/-- Fail without telling anything. -/
def fail (failure : ε) : Attempt ε α := ⟨[], .error failure⟩

/-- See a failure in other terms. -/
def mapError {δ : Type} (change : ε → δ) (attempt : Attempt ε α) : Attempt δ α :=
  ⟨attempt.events, attempt.result.mapError change⟩

/-- Tell of a failure when there is one. -/
def noteFailure (event : ε → Event) (attempt : Attempt ε α) : Attempt ε α :=
  match attempt.result with
  | .ok _ => attempt
  | .error failure => ⟨attempt.events ++ [event failure], attempt.result⟩

/-- The result of a sequence is the sequence of the results. -/
@[simp]
theorem result_bind (first : Attempt ε α) (next : α → Attempt ε β) :
    (first >>= next).result = first.result >>= fun value => (next value).result := by
  obtain ⟨events, result⟩ := first
  cases result <;> rfl

end Attempt

end Lookout
