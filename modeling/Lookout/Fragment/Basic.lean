/-
# Fragments

A fragment is a run of instructions that is to be spliced into a method,
together with the stack and local variable room that it needs.
-/

import Lookout.Bytes

namespace Lookout

/-- Instructions and the frame they need. -/
structure Fragment where
  code : Bytes
  maxStack : UInt16
  maxLocals : UInt16
  deriving DecidableEq

namespace Fragment

/-- Bytes of code. -/
def length (fragment : Fragment) : Nat := fragment.code.length

/-- Whether there is no code. -/
def isEmpty (fragment : Fragment) : Bool := fragment.code.isEmpty

end Fragment

end Lookout
