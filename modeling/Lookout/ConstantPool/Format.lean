/-
# The constant pool in a file

A pool is written as its slot count followed by its entries; empty slots leave
no bytes. Reading takes entries until all slots are accounted for, and refuses
a long or double whose second slot would lie behind the last one. A count of 0
is read as an empty pool, although a pool is never written with it.
-/

import Lookout.ConstantPool.Basic

namespace Lookout.ConstantPool

/-- The bytes that a slot leaves in the file. -/
def slotBytes : Option Constant → Bytes
  | some constant => constant.bytes
  | none => []

/-- The pool as it is written. -/
def bytes (pool : ConstantPool) : Bytes :=
  Word.count16 pool.count ++ pool.slots.toList.flatMap slotBytes

/-- Read entries behind the slots already there until there are `count` slots. -/
def readSlotsOnto (count : Nat) (slots : Array (Option Constant)) (cursor : Cursor) :
    Except ClassFileError (Array (Option Constant) × Cursor) :=
  if slots.size < count then
    match Constant.read (UInt16.ofNat slots.size) cursor with
    | .error fault => .error fault
    | .ok (constant, next) =>
      if constant.isWide then
        if slots.size + 1 < count then
          readSlotsOnto count ((slots.push (some constant)).push none) next
        else .error (.badConstantIndex (UInt16.ofNat (slots.size + 1)))
      else readSlotsOnto count (slots.push (some constant)) next
  else .ok (slots, cursor)
termination_by count - slots.size

/-- Read a pool. -/
def read : Reader ConstantPool := do
  let count ← Reader.word16
  let slots ← readSlotsOnto count.toNat empty.slots
  return ⟨slots⟩

end Lookout.ConstantPool
