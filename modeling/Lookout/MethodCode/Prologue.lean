/-
# Inserting a prologue

A fragment is spliced in front of the first instruction of a method. The body
itself does not change, because its branches are relative; everything that
records an offset into the code is moved along. The fragment's length has to
be a multiple of four so that the operands of switches keep their alignment.
Type annotations record offsets in a form that is not decoded here, and are
dropped. The whole result is checked before it is handed out.
-/

import Lookout.ConstantPool.Basic
import Lookout.Fragment.Basic
import Lookout.Instruction.Layout
import Lookout.MethodCode.Basic
import Lookout.MethodCode.DebugTable
import Lookout.StackMap.Shift

namespace Lookout

namespace ExceptionEntry

/-- The entry after `distance` bytes were inserted in front of the code. -/
def shifted (distance : UInt16) (entry : ExceptionEntry) :
    Except ClassFileError ExceptionEntry := do
  let start ← raisedOffset MethodCode.attributeName entry.start distance
  let stop ← raisedOffset MethodCode.attributeName entry.stop distance
  let handler ← raisedOffset MethodCode.attributeName entry.handler distance
  return { entry with start, stop, handler }

/-- The offsets that the entry records. -/
def references (entry : ExceptionEntry) : List OffsetReference :=
  [⟨entry.start.toNat, entry.start.toNat⟩, ⟨entry.start.toNat, entry.stop.toNat⟩,
    ⟨entry.handler.toNat, entry.handler.toNat⟩]

end ExceptionEntry

/-- What becomes of one attribute of a method's code: what is kept of it, and the
frame offsets that it records. -/
structure MovedAttribute where
  kept : Option Attribute
  frameOffsets : List Nat

namespace MethodCode

/-- The largest code array that a method may have. -/
def maxCodeLength : Nat := 65535

/-- The attributes that record offsets in a form that is not decoded. -/
def typeAnnotationNames : List String :=
  ["RuntimeVisibleTypeAnnotations", "RuntimeInvisibleTypeAnnotations"]

/-- A stack map table after `distance` bytes were inserted in front of the code. -/
def shiftFrames (distance : UInt16) (info : Bytes) : Except ClassFileError StackMapTable := do
  let table ← StackMapTable.ofBytes info
  match table.shift distance with
  | (.ok (), shifted) => return shifted
  | (.error fault, _) => .error fault

/-- Move one attribute of a method's code, going by its name. Attributes with
other names than those that record offsets are kept as they are. -/
def moveAttribute (pool : ConstantPool) (distance : UInt16) (item : Attribute) :
    Except ClassFileError MovedAttribute := do
  let name ← pool.utf8 item.nameIndex
  if name = LineEntry.attributeName then
    let info ← DebugTable.shiftLines distance item.info
    return ⟨some { item with info }, []⟩
  else if name = VariableRange.attributeName ∨ name = VariableRange.typeAttributeName then
    let info ← DebugTable.shiftVariables name distance item.info
    return ⟨some { item with info }, []⟩
  else if name = StackMapTable.attributeName then
    let table ← shiftFrames distance item.info
    return ⟨some { item with info := table.bytes }, table.offsets⟩
  else if name ∈ typeAnnotationNames then return ⟨none, []⟩
  else return ⟨some item, []⟩

/-- The code with a fragment spliced in front of it. -/
def insertPrologue (body : MethodCode) (pool : ConstantPool) (fragment : Fragment) :
    Except ClassFileError MethodCode := do
  let inserted := fragment.length
  if inserted % 4 ≠ 0 then
    throw (.misalignedFragment inserted)
  let length := inserted + body.code.length
  if length > maxCodeLength then
    throw (.codeTooLarge length)
  let distance := UInt16.ofNat inserted
  let exceptions ← body.exceptions.mapM (ExceptionEntry.shifted distance)
  let moved ← body.attributes.mapM (moveAttribute pool distance)
  let code := fragment.code ++ body.code
  let frameReferences := moved.flatMap fun item =>
    item.frameOffsets.map fun offset => OffsetReference.mk offset offset
  checkLayout code (exceptions.flatMap ExceptionEntry.references ++ frameReferences)
  return {
    maxStack := max body.maxStack fragment.maxStack
    maxLocals := max body.maxLocals fragment.maxLocals
    code, exceptions
    attributes := moved.filterMap MovedAttribute.kept }

end MethodCode

end Lookout
