/-
# Instrumenting a class

Each listed method of a target class gets the prologue of its kind, and a
marker attribute by which a later pass recognizes it and leaves it alone. If
one method cannot be instrumented, nothing is.
-/

import Lookout.ClassFile.Edit
import Lookout.Instrumentation.DiagnosticPrologue
import Lookout.Instrumentation.Journal
import Lookout.MethodCode.Prologue
import Lookout.Target.Registry

namespace Lookout

/-- What became of the data of a class. -/
inductive ClassUpdate where
  | unchanged
  | replaced (data : Bytes)
  deriving DecidableEq

/-- The data to go on with, given the data that was looked at. -/
def ClassUpdate.data (current : Bytes) : ClassUpdate → Bytes
  | .unchanged => current
  | .replaced data => data

namespace Instrumentation

/-- The attribute that marks an instrumented method. -/
def markerName : String := "HaltwatchInstrumented"

/-- Put a body and the marker in place in a method. -/
def install (index : Nat) (body : MethodCode) : ClassEdit Unit := do
  ClassEdit.setMethodCode index body
  ClassEdit.addMethodAttribute index markerName []

/-- Instrument one method of a class, unless it carries the marker, in which case
there is no new class. -/
def instrumentMethod (kind : TargetKind) (identity : ClassIdentity) (file : ClassFile)
    (name : String) : Attempt AgentError (Option ClassFile) := do
  let refuse (fault : InjectionFault) : AgentError :=
    .compilation identity.internalName name fault
  let reading {α : Type} (result : Except ClassFileError α) : Attempt AgentError α :=
    .ofExcept (result.mapError fun fault => refuse (.classData fault))
  let signature := kind.signature name
  let descriptor := signature.descriptor.text
  match file.findMethod? name descriptor with
  | none => .fail (.methodNotFound identity.binaryName name descriptor)
  | some index =>
    let method ← reading (file.method index)
    if method.hasAttribute file.pool markerName then
      .note (.alreadyInstrumented identity signature)
      return none
    else if kind.needsReceiver && method.isStatic then
      .fail (refuse .staticMethod)
    else
      .note (.inserting name)
      match ← reading (method.code? file.pool) with
      | none => .fail (refuse .noBytecode)
      | some body =>
        let (built, file) := DiagnosticPrologue.build kind name file
        let fragment ← .ofExcept built
        let body ← reading (body.insertPrologue file.pool fragment)
        let (installed, file) := file.edit (install index body)
        reading installed
        .note (.inserted identity signature fragment.length body.code.length)
        return some file

/-- Instrument methods one after the other. Besides the class there is told
whether anything about it changed. -/
def instrumentMethods (kind : TargetKind) (identity : ClassIdentity) :
    ClassFile × Bool → List String → Attempt AgentError (ClassFile × Bool)
  | state, [] => return state
  | (file, changed), name :: names => do
    match ← instrumentMethod kind identity file name with
    | some file => instrumentMethods kind identity (file, true) names
    | none => instrumentMethods kind identity (file, changed) names

/-- Instrument the listed methods of a class. Without names there is nothing to
do, not even to ask whether the class is a target. -/
def instrument (registry : TargetRegistry) (data : Bytes) (identity : ClassIdentity)
    (names : List String) : Attempt AgentError ClassUpdate :=
  match names with
  | [] => return .unchanged
  | first :: _ =>
    match registry.spec? identity with
    | none => .fail (.compilation identity.internalName first .notRegistered)
    | some spec => do
      let file ← .ofExcept
        ((ClassFile.ofBytes data).mapError (AgentError.invalidClassFile identity.internalName))
      .note (.instrumenting names.length identity)
      let (file, changed) ← instrumentMethods spec.kind identity (file, false) names
      if changed then
        let updated := file.bytes
        .note (.instrumented updated.length)
        return .replaced updated
      else return .unchanged

end Instrumentation

end Lookout
