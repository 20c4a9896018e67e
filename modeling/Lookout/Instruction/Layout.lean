/-
# Well laid out code

A code array is well laid out if it decodes from end to end and every branch
lands on the start of an instruction. Offsets recorded elsewhere, in exception
and frame tables, are held to the same rule, save that they may also name the
end of the code, as an exclusive bound does.
-/

import Std.Data.TreeSet
import Lookout.Instruction.Branch
import Lookout.Instruction.Listing

namespace Lookout

/-- A recorded offset and the place to blame if it is wrong. -/
structure OffsetReference where
  origin : Nat
  offset : Nat
  deriving DecidableEq

/-- The offset as a report gives it. Reports hold signed 64 bit numbers, because a
branch may lead to below 0, so an offset from 2^63 on comes out negative. No code
array is that long: an offset inside the code is always given as it is. -/
def OffsetReference.reported (reference : OffsetReference) : Int :=
  Word.signed64 (UInt64.ofNat reference.offset)

namespace Listing

/-- The offsets at which instructions start. -/
def starts (listing : Listing) : List Nat :=
  listing.instructions.map Instruction.offset

/-- Every branch: the offset of the instruction and the offset it may branch to. -/
def branches (listing : Listing) : List (Nat × Int) :=
  listing.instructions.flatMap fun instruction =>
    instruction.targets.map fun target => (instruction.offset, target)

end Listing

/-- Whether the offset, which may be negative, is among the starts. -/
def isStart (starts : Std.TreeSet Nat) (target : Int) : Bool :=
  0 ≤ target && starts.contains target.toNat

/-- Check that the code is well laid out, together with the offsets recorded
elsewhere. A failure to decode is reported before any wrong offset; then come the
branches in code order, then the recorded offsets in the order given. -/
def checkLayout (code : Bytes) (references : List OffsetReference) :
    Except ClassFileError Unit :=
  let listing := Listing.ofCode code
  match listing.failure with
  | some fault => .error fault
  | none =>
    let starts := Std.TreeSet.ofList listing.starts
    match listing.branches.find? fun (_, target) => !isStart starts target with
    | some (origin, target) => .error (.badBranchTarget origin target)
    | none =>
      let codeLength := code.length
      match references.find? fun reference =>
          !(reference.offset == codeLength || starts.contains reference.offset) with
      | some reference => .error (.badBranchTarget reference.origin reference.reported)
      | none => .ok ()

end Lookout
