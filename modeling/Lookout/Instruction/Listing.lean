/-
# Listing a code array

Instructions follow each other without gaps. A listing decodes from offset 0
and ends at the end of the code, or at the first instruction that cannot be
decoded; in that case the failure is kept beside the instructions before it.
-/

import Lookout.Instruction.Basic

namespace Lookout

/-- The instructions of a code array as far as they decode, and the failure that
ended them early, if any. -/
structure Listing where
  instructions : List Instruction
  failure : Option ClassFileError
  deriving DecidableEq

namespace Listing

/-- List the code that starts at `offset`, behind the instructions already `done`,
which are kept in reverse. -/
def ofBytesOnto (done : List Instruction) (offset : Nat) (code : Bytes) : Listing :=
  match code with
  | [] => ⟨done.reverse, none⟩
  | opcode :: following =>
    match Instruction.ofBytes offset opcode following with
    | .error fault => ⟨done.reverse, some fault⟩
    | .ok instruction =>
      ofBytesOnto (instruction :: done) (offset + instruction.length)
        (following.drop instruction.operands.length)
termination_by code.length
decreasing_by
  simp only [List.length_drop, List.length_cons]
  omega

/-- The listing of a code array. -/
def ofCode (code : Bytes) : Listing := ofBytesOnto [] 0 code

end Listing

end Lookout
