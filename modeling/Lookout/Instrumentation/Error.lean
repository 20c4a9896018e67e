/-
# Why instrumentation fails

Each of these failures stops the agent from attaching. A class is named in
dotted form, except where its own data could not be read.
-/

import Lookout.ClassFile.Error
import Lookout.Target.Basic

namespace Lookout

/-- Why no report could be put into a method. -/
inductive InjectionFault where
  | notRegistered
  | staticMethod
  | noBytecode
  /-- The report reads a field that the class does not declare. -/
  | missingField (name descriptor : String)
  | classData (fault : ClassFileError)
  deriving DecidableEq

/-- The reason in words. -/
def InjectionFault.reason : InjectionFault → String
  | .notRegistered => "not a registered target"
  | .staticMethod => "method is static but the diagnostic reads the receiver"
  | .noBytecode => "method has no bytecode"
  | .missingField name descriptor => "no field " ++ name ++ ":" ++ descriptor
  | .classData fault => fault.message

/-- A failure of the agent. -/
inductive AgentError where
  | setupTargetMissing (className : String)
  | methodNotFound (className method descriptor : String)
  | compilationFailure (className method : String) (fault : InjectionFault)
  | redefinitionRejected (reason : String)
  | invalidClassFile (className : String) (fault : ClassFileError)
  deriving DecidableEq

namespace AgentError

/-- The report for a failure. -/
def message : AgentError → String
  | .setupTargetMissing className =>
    "target class " ++ className ++ " could not be resolved"
  | .methodNotFound className method descriptor =>
    "method " ++ method ++ descriptor ++ " not found in " ++ className
  | .compilationFailure className method fault =>
    "failed to inject diagnostics into " ++ className ++ "." ++ method ++ ": " ++ fault.reason
  | .redefinitionRejected reason => "host refused to retransform classes: " ++ reason
  | .invalidClassFile className fault =>
    "class file for " ++ className ++ " is malformed: " ++ fault.message

/-- The failure that lies behind this one, where it has a report of its own. -/
def cause? : AgentError → Option ClassFileError
  | .invalidClassFile _ fault => some fault
  | _ => none

/-- A report could not be put into a method of a class, named in either spelling. -/
def compilation (className method : String) (fault : InjectionFault) : AgentError :=
  .compilationFailure (Text.dotted className) method fault

end AgentError

end Lookout
