/-
# Instructions

An instruction is its offset in the code array, its opcode, and the bytes that
follow the opcode and belong to it. The offset matters: branch offsets count
from it, and the operands of a switch start at the next multiple of four.
-/

import Lookout.Bytes
import Lookout.ClassFile.Error
import Lookout.Instruction.Opcode

namespace Lookout

/-- An instruction of a code array. -/
structure Instruction where
  offset : Nat
  opcode : UInt8
  operands : Bytes
  deriving DecidableEq

namespace Instruction

/-- Bytes taken, which is at least one. -/
def length (instruction : Instruction) : Nat := instruction.operands.length + 1

/-- The same instruction further on in the code array. -/
def shifted (distance : Nat) (instruction : Instruction) : Instruction :=
  { instruction with offset := instruction.offset + distance }

/-- How many bytes between the opcode of a switch and the next multiple of four. -/
def switchPadding (offset : Nat) : Nat := (4 - (offset + 1) % 4) % 4

/-- How many operand bytes the instruction at `offset` has, given its opcode and
the bytes that follow. The counts inside a switch, and the opcode that `wide`
widens, must be there to be read; whether the rest is there is not checked. -/
def operandCount (offset : Nat) (opcode : UInt8) (following : Bytes) :
    Except ClassFileError Nat :=
  if opcode = Opcode.tableswitch then
    let padding := switchPadding offset
    let body := following.drop padding
    match Bytes.signedWordAt? body 4, Bytes.signedWordAt? body 8 with
    | some low, some high =>
      if high < low then .error (.invalidOpcode opcode offset)
      else .ok (padding + 12 + 4 * (high - low + 1).toNat)
    | _, _ => .error (.unexpectedEnd offset)
  else if opcode = Opcode.lookupswitch then
    let padding := switchPadding offset
    match Bytes.signedWordAt? (following.drop padding) 4 with
    | some pairs =>
      if pairs < 0 then .error (.invalidOpcode opcode offset)
      else .ok (padding + 8 + 8 * pairs.toNat)
    | none => .error (.unexpectedEnd offset)
  else if opcode = Opcode.wide then
    match following with
    | [] => .error (.unexpectedEnd offset)
    | widened :: _ =>
      if widened = Opcode.iinc then .ok 5
      else if Opcode.isLocalAccess widened then .ok 3
      else .error (.invalidOpcode widened (offset + 1))
  else
    match Opcode.fixedLength opcode with
    | some length => .ok (length - 1)
    | none => .error (.invalidOpcode opcode offset)

/-- The instruction at `offset`, given its opcode and the bytes that follow. -/
def ofBytes (offset : Nat) (opcode : UInt8) (following : Bytes) :
    Except ClassFileError Instruction :=
  match operandCount offset opcode following with
  | .error fault => .error fault
  | .ok count =>
    let operands := following.take count
    if operands.length = count then .ok ⟨offset, opcode, operands⟩
    else .error (.unexpectedEnd offset)

/-- Decode the instruction at `offset` of a code array. -/
def decode (code : Bytes) (offset : Nat) : Except ClassFileError Instruction :=
  match code.drop offset with
  | [] => .error (.unexpectedEnd offset)
  | opcode :: following => ofBytes offset opcode following

end Instruction

end Lookout
