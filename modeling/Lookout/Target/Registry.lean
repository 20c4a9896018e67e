/-
# The table of targets

The table lists each class once, ordered by internal name. It is made before
anything else happens and never changes afterwards.
-/

import Lookout.Target.Basic

namespace Lookout

/-- A class was listed for the second time. -/
structure DuplicateTarget where
  duplicate : ClassIdentity
  deriving DecidableEq

/-- The report for a class listed twice. -/
def DuplicateTarget.message (fault : DuplicateTarget) : String :=
  "class " ++ fault.duplicate.internalName ++ " is listed more than once in the target table"

/-- The targets, ordered by class name. -/
structure TargetRegistry where
  targets : List (ClassIdentity × TargetSpec)
  deriving DecidableEq

namespace TargetRegistry

/-- Put a row in its place in an ordered table. -/
def insertRow (row : ClassIdentity × TargetSpec) :
    List (ClassIdentity × TargetSpec) → List (ClassIdentity × TargetSpec)
  | [] => [row]
  | first :: later =>
    if row.1.internalName < first.1.internalName then row :: first :: later
    else first :: insertRow row later

/-- Add a class that is not listed yet. -/
def insert (registry : TargetRegistry) (identity : ClassIdentity) (spec : TargetSpec) :
    Except DuplicateTarget TargetRegistry :=
  if registry.targets.any fun row => row.1 = identity then .error ⟨identity⟩
  else .ok ⟨insertRow (identity, spec) registry.targets⟩

/-- The table with these rows, in any order. -/
def ofRows (rows : List (ClassIdentity × TargetSpec)) : Except DuplicateTarget TargetRegistry :=
  rows.foldlM (fun registry row => registry.insert row.1 row.2) ⟨[]⟩

/-- The class that ends the process, and the class that launches others. -/
def builtin : TargetRegistry :=
  ⟨[(⟨"java/lang/ProcessBuilder"⟩, ⟨.processStart, ["start"]⟩),
    (⟨"java/lang/Shutdown"⟩, ⟨.halt, ["halt"]⟩)]⟩

/-- The built-in table is already in order and lists no class twice. -/
theorem ofRows_builtin : ofRows builtin.targets.reverse = .ok builtin := by rfl

/-- What to do with a class, if it is a target. -/
def spec? (registry : TargetRegistry) (identity : ClassIdentity) : Option TargetSpec :=
  (registry.targets.find? fun row => row.1 = identity).map Prod.snd

/-- The methods of a class that are to report. A class that is not a target has
none. -/
def methodsOf (registry : TargetRegistry) (identity : ClassIdentity) : List String :=
  match registry.spec? identity with
  | some spec => spec.methods
  | none => []

/-- How many classes are listed. -/
def size (registry : TargetRegistry) : Nat := registry.targets.length

/-- Whether no class is listed. -/
def isEmpty (registry : TargetRegistry) : Bool := registry.targets.isEmpty

end TargetRegistry

end Lookout
