/-
# Opcodes

The names of the opcodes that this library looks at or emits, and the length
of every instruction whose length does not depend on where it stands.
-/

namespace Lookout.Opcode

/-- Do nothing. -/
abbrev nop : UInt8 := 0x00
/-- Push the null reference. -/
abbrev aconstNull : UInt8 := 0x01
/-- Push the number 0. -/
abbrev iconst0 : UInt8 := 0x03
/-- Push the number 1. -/
abbrev iconst1 : UInt8 := 0x04
/-- Push a constant whose index fits one byte. -/
abbrev ldc : UInt8 := 0x12
/-- Push a constant with a two-byte index. -/
abbrev ldcW : UInt8 := 0x13
/-- Push a reference from a local variable. -/
abbrev aload : UInt8 := 0x19
/-- Push the int in local variable 0. -/
abbrev iload0 : UInt8 := 0x1A
/-- Push the long in local variable 0. -/
abbrev lload0 : UInt8 := 0x1E
/-- Push the reference in local variable 0. -/
abbrev aload0 : UInt8 := 0x2A
/-- Push the reference in local variable 1. -/
abbrev aload1 : UInt8 := 0x2B
/-- Pop a reference into local variable 1. -/
abbrev astore1 : UInt8 := 0x4C
/-- Add to an int in a local variable. -/
abbrev iinc : UInt8 := 0x84
/-- Narrow a long to an int. -/
abbrev l2i : UInt8 := 0x88
/-- Branch if an int is 0. -/
abbrev ifeq : UInt8 := 0x99
/-- Return to an address in a local variable. -/
abbrev ret : UInt8 := 0xA9
/-- Branch by index into a table. -/
abbrev tableswitch : UInt8 := 0xAA
/-- Branch by looking up a key. -/
abbrev lookupswitch : UInt8 := 0xAB
/-- Return a reference. -/
abbrev areturn : UInt8 := 0xB0
/-- Return nothing. -/
abbrev returnVoid : UInt8 := 0xB1
/-- Push a static field. -/
abbrev getstatic : UInt8 := 0xB2
/-- Replace an object by one of its fields. -/
abbrev getfield : UInt8 := 0xB4
/-- Call a method of an object. -/
abbrev invokevirtual : UInt8 := 0xB6
/-- Call a particular method of an object. -/
abbrev invokespecial : UInt8 := 0xB7
/-- Call a static method. -/
abbrev invokestatic : UInt8 := 0xB8
/-- Call a method of an interface. -/
abbrev invokeinterface : UInt8 := 0xB9
/-- Make an array of references. -/
abbrev anewarray : UInt8 := 0xBD
/-- Throw. -/
abbrev athrow : UInt8 := 0xBF
/-- Give the next instruction a two-byte local variable index. -/
abbrev wide : UInt8 := 0xC4
/-- Branch if a reference is null. -/
abbrev ifnull : UInt8 := 0xC6
/-- Branch if a reference is not null. -/
abbrev ifnonnull : UInt8 := 0xC7
/-- Branch with a four-byte offset. -/
abbrev gotoW : UInt8 := 0xC8
/-- Call a subroutine with a four-byte offset. -/
abbrev jsrW : UInt8 := 0xC9

/-- Runs of opcodes whose instructions have the same length: the first and last
opcode of the run, and the length. The switches, `wide`, and the opcodes that
no class file may contain are in no run. -/
def lengthRuns : List (UInt8 × UInt8 × Nat) :=
  [(0x00, 0x0F, 1), -- constants
    (0x10, 0x10, 2), (0x11, 0x11, 3), -- bipush, sipush
    (0x12, 0x12, 2), (0x13, 0x14, 3), -- constants from the pool
    (0x15, 0x19, 2), (0x1A, 0x35, 1), -- loads
    (0x36, 0x3A, 2), (0x3B, 0x83, 1), -- stores, stack moves, arithmetic
    (0x84, 0x84, 3), -- iinc
    (0x85, 0x98, 1), -- conversions, comparisons
    (0x99, 0xA8, 3), -- branches with a two-byte offset
    (0xA9, 0xA9, 2), -- ret
    (0xAC, 0xB1, 1), -- returns
    (0xB2, 0xB8, 3), -- fields, calls
    (0xB9, 0xBA, 5), -- invokeinterface, invokedynamic
    (0xBB, 0xBB, 3), (0xBC, 0xBC, 2), (0xBD, 0xBD, 3), -- new, newarray, anewarray
    (0xBE, 0xBF, 1), -- arraylength, athrow
    (0xC0, 0xC1, 3), (0xC2, 0xC3, 1), -- type tests, monitors
    (0xC5, 0xC5, 4), -- multianewarray
    (0xC6, 0xC7, 3), -- null branches
    (0xC8, 0xC9, 5)] -- branches with a four-byte offset

/-- The length of the instruction with this opcode, if the opcode decides it. -/
def fixedLength (opcode : UInt8) : Option Nat :=
  (lengthRuns.find? fun (first, last, _) => first ≤ opcode && opcode ≤ last).map fun run => run.2.2

theorem one_le_of_mem_lengthRuns : ∀ run ∈ lengthRuns, 1 ≤ run.2.2 := by decide

/-- Every length counts the opcode. -/
theorem one_le_of_fixedLength {opcode : UInt8} {length : Nat}
    (fixed : fixedLength opcode = some length) : 1 ≤ length := by
  obtain ⟨run, found, rfl⟩ := Option.map_eq_some_iff.mp fixed
  exact one_le_of_mem_lengthRuns run (List.mem_of_find?_eq_some found)

/-- Whether the instruction carries a signed two-byte branch offset. -/
def isShortBranch (opcode : UInt8) : Bool :=
  (0x99 ≤ opcode && opcode ≤ 0xA8) || opcode == ifnull || opcode == ifnonnull

/-- Whether the instruction carries a signed four-byte branch offset. -/
def isLongBranch (opcode : UInt8) : Bool :=
  opcode == gotoW || opcode == jsrW

/-- Whether the instruction moves a value between the stack and a local variable
named in its operand byte, or is `ret`. These are what `wide` can widen, besides
`iinc`. -/
def isLocalAccess (opcode : UInt8) : Bool :=
  (0x15 ≤ opcode && opcode ≤ 0x19) || (0x36 ≤ opcode && opcode ≤ 0x3A) || opcode == ret

end Lookout.Opcode
