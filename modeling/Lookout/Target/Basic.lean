/-
# Targets

A target is a class, with the names of those of its methods that are to report
when they run. There are two kinds, and the kind decides which overload of a
name is meant and what is reported.
-/

import Lookout.Descriptor
import Lookout.Text.ClassName

namespace Lookout

/-- A class, told apart from others by its internal name. -/
structure ClassIdentity where
  internalName : String
  deriving DecidableEq

namespace ClassIdentity

/-- The class with this name, in either spelling. -/
def ofName (name : String) : ClassIdentity := ⟨Text.slashed name⟩

/-- The dotted name. -/
def binaryName (identity : ClassIdentity) : String := Text.dotted identity.internalName

/-- Put a class in its place in a list ordered by name, unless it is there. -/
def insertDistinct (identity : ClassIdentity) : List ClassIdentity → List ClassIdentity
  | [] => [identity]
  | first :: later =>
    if identity = first then first :: later
    else if identity.internalName < first.internalName then identity :: first :: later
    else first :: insertDistinct identity later

/-- The classes in the list, each once, ordered by name. -/
def sortedDistinct (classes : List ClassIdentity) : List ClassIdentity :=
  classes.foldl (fun sorted identity => identity.insertDistinct sorted) []

end ClassIdentity

/-- A method overload: its name and descriptor. -/
structure MethodSignature where
  name : String
  descriptor : MethodDescriptor
  deriving DecidableEq

/-- The name directly followed by the descriptor. -/
def MethodSignature.text (signature : MethodSignature) : String :=
  signature.name ++ signature.descriptor.text

/-- What a target method is about to do when it runs. -/
inductive TargetKind where
  /-- End the whole process at once. -/
  | halt
  /-- Launch another process. -/
  | processStart
  deriving DecidableEq

namespace TargetKind

/-- The descriptor of the one overload that reports: an exit status and nothing
returned, or no arguments and the new process returned. -/
def descriptor : TargetKind → MethodDescriptor
  | .halt => ⟨[.int], .void⟩
  | .processStart => ⟨[], .value (.object "java/lang/Process")⟩

/-- The overload of a method that reports. -/
def signature (kind : TargetKind) (method : String) : MethodSignature :=
  ⟨method, kind.descriptor⟩

/-- Whether the report reads state of the object that the method is called on. -/
def needsReceiver : TargetKind → Bool
  | .halt => false
  | .processStart => true

end TargetKind

/-- What to do with one class. -/
structure TargetSpec where
  kind : TargetKind
  methods : List String
  deriving DecidableEq

end Lookout
