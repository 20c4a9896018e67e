/-
# Offsets into a code array

Recorded offsets are 16 bit words. Inserting bytes in front of a code array
raises them all by the same distance, and fails for one that no longer fits.
-/

import Lookout.ClassFile.Error

namespace Lookout

/-- An offset raised by a distance, if the sum still fits 16 bits. -/
def raisedOffset? (offset distance : UInt16) : Option UInt16 :=
  if offset.toNat + distance.toNat < 65536 then some (offset + distance) else none

/-- An offset raised by a distance, blaming the attribute that records it. -/
def raisedOffset (name : String) (offset distance : UInt16) : Except ClassFileError UInt16 :=
  match raisedOffset? offset distance with
  | some raised => .ok raised
  | none => .error (.malformedAttribute name (.offsetOverflow offset distance))

end Lookout
