/-
# Assembling fragments

Each operation appends one instruction, interns the constants it refers to,
and follows the operand stack depth by the descriptor of what is referred to.
An operation that fails appends nothing and leaves the depth as it was;
constants that it interned before it failed stay in the pool.

The depth has 16 bits. Taking slots off the stack is checked. Putting slots on
it is not, nor is adding up the slots of arguments: past 65535 the sums start
again at 0. (A build that checks its sums stops there, and does the same up to
there.)
-/

import Lookout.ConstantPool.Interning
import Lookout.Descriptor.Grammar
import Lookout.Fragment.Basic
import Lookout.Instruction.Opcode

namespace Lookout

/-- A fragment under construction, and the pool that its constants go to. -/
structure Assembler where
  pool : ConstantPool
  code : Array UInt8
  /-- Stack slots in use behind the last instruction. -/
  depth : UInt16
  /-- The most stack slots in use so far. -/
  maxStack : UInt16
  /-- Local variable slots that the loads so far need. -/
  maxLocals : UInt16

/-- A step of assembly. Its effect on the assembler survives failure. -/
abbrev Assembly := ExceptT ClassFileError (StateM Assembler)

namespace Assembler

/-- An assembler that has done nothing yet. -/
def start (pool : ConstantPool) : Assembler := ⟨pool, #[], 0, 0, 0⟩

/-- The offset of the next instruction. -/
def offset (assembler : Assembler) : Nat := assembler.code.size

/-- Append the bytes of an instruction. -/
def emit (bytes : Bytes) (assembler : Assembler) : Assembler :=
  { assembler with code := assembler.code ++ bytes }

/-- Put that many slots on the stack. -/
def push (slots : UInt16) (assembler : Assembler) : Assembler :=
  let depth := assembler.depth + slots
  { assembler with depth, maxStack := max assembler.maxStack depth }

/-- Note that a local variable is read. A frame has at most 65535 of them. -/
def useLocal (index : UInt16) (assembler : Assembler) : Assembler :=
  { assembler with maxLocals := max assembler.maxLocals (Word.succ16 index) }

/-- How many `nop` bytes reach the next multiple of four. -/
def padding (assembler : Assembler) : Nat := (4 - assembler.code.size % 4) % 4

/-- The finished fragment: the instructions, padded to a multiple of four. The
stack has to be as empty as it was in the beginning. -/
def finish (assembler : Assembler) : Except ClassFileError Fragment :=
  if assembler.depth = 0 then
    .ok ⟨assembler.code.toList ++ List.replicate assembler.padding Opcode.nop,
      assembler.maxStack, assembler.maxLocals⟩
  else .error (.unbalancedStack assembler.depth.toNat)

end Assembler

namespace Assembly

/-- Intern constants into the pool of the assembler. -/
def interned {α : Type} (action : Interning α) : Assembly α := fun assembler =>
  let (result, pool) := action assembler.pool
  (result, { assembler with pool })

/-- Continue with a value that needs no assembler. -/
def ofExcept {α : Type} (result : Except ClassFileError α) : Assembly α := fun assembler =>
  (result, assembler)

/-- Take that many slots off the stack, for the named instruction. -/
def pop (slots : UInt16) (mnemonic : String) : Assembly Unit := fun assembler =>
  if slots ≤ assembler.depth then
    (.ok (), { assembler with depth := assembler.depth - slots })
  else (.error (.stackUnderflow mnemonic), assembler)

/-- An opcode with a two-byte operand. -/
def withOperand (opcode : UInt8) (operand : UInt16) : Bytes :=
  opcode :: Word.bytes16 operand

/-- Do nothing. -/
def nop : Assembly Unit := modify (Assembler.emit [Opcode.nop])

/-- The bytes that push the reference in a local variable: one byte for the first
four, two while the index fits a byte, four otherwise. -/
def aloadBytes (index : UInt16) : Bytes :=
  if index ≤ 3 then [Opcode.aload0 + index.toUInt8]
  else if index ≤ 255 then [Opcode.aload, index.toUInt8]
  else Opcode.wide :: withOperand Opcode.aload index

/-- Push the reference in a local variable. -/
def aload (index : UInt16) : Assembly Unit :=
  modify fun assembler => (assembler.emit (aloadBytes index)).useLocal index |>.push 1

/-- The bytes that push the constant with this index, the shorter form if it fits. -/
def ldcBytes (index : UInt16) : Bytes :=
  if index ≤ 255 then [Opcode.ldc, index.toUInt8] else withOperand Opcode.ldcW index

/-- Push a string. -/
def ldc (text : String) : Assembly Unit := do
  let index ← interned (Interning.string text)
  modify fun assembler => (assembler.emit (ldcBytes index)).push 1

/-- Push a static field. -/
def getstatic (field : MemberReference) : Assembly Unit := do
  let type ← ofExcept (FieldType.ofText field.descriptor)
  let index ← interned (Interning.fieldRef field)
  modify fun assembler =>
    (assembler.emit (withOperand Opcode.getstatic index)).push type.slots

/-- Replace an object by one of its fields. -/
def getfield (field : MemberReference) : Assembly Unit := do
  let type ← ofExcept (FieldType.ofText field.descriptor)
  let index ← interned (Interning.fieldRef field)
  pop 1 "getfield"
  modify fun assembler =>
    (assembler.emit (withOperand Opcode.getfield index)).push type.slots

/-- Call a static method. -/
def invokestatic (method : MemberReference) : Assembly Unit := do
  let descriptor ← ofExcept (MethodDescriptor.ofText method.descriptor)
  let index ← interned (Interning.methodRef method)
  pop descriptor.parameterSlots "invokestatic"
  modify fun assembler =>
    (assembler.emit (withOperand Opcode.invokestatic index)).push descriptor.returns.slots

/-- Call a method of an object, which lies below its arguments. -/
def invokevirtual (method : MemberReference) : Assembly Unit := do
  let descriptor ← ofExcept (MethodDescriptor.ofText method.descriptor)
  let index ← interned (Interning.methodRef method)
  pop (descriptor.parameterSlots + 1) "invokevirtual"
  modify fun assembler =>
    (assembler.emit (withOperand Opcode.invokevirtual index)).push descriptor.returns.slots

/-- Call a method of an interface on an object, which lies below its arguments.
The instruction also carries the slots taken, in one byte, and a zero. -/
def invokeinterface (method : MemberReference) : Assembly Unit := do
  let descriptor ← ofExcept (MethodDescriptor.ofText method.descriptor)
  let index ← interned (Interning.interfaceMethodRef method)
  let taken := descriptor.parameterSlots + 1
  pop taken "invokeinterface"
  modify fun assembler =>
    (assembler.emit (withOperand Opcode.invokeinterface index ++ [taken.toUInt8, 0])).push
      descriptor.returns.slots

end Assembly

end Lookout
