/-
# The constant pool and its lookups

A pool is a row of slots numbered from 0. Slot 0 names nothing, and a long or
double takes the slot behind its own as well; such slots are empty. Lookups
follow indices from entry to entry and report the first one that does not
lead to an entry of the kind that is needed.
-/

import Lookout.ConstantPool.Constant
import Lookout.Text.ModifiedUtf8

namespace Lookout

/-- The constants of one class, by index. An empty slot is an index that names
no constant. -/
structure ConstantPool where
  slots : Array (Option Constant)
  deriving DecidableEq

/-- The class, name and descriptor that a member reference stands for. -/
structure MemberReference where
  owner : String
  name : String
  descriptor : String
  deriving DecidableEq

namespace ConstantPool

/-- The pool without constants, which still has slot 0. -/
def empty : ConstantPool := ⟨#[none]⟩

/-- How many slots there are, slot 0 included. -/
def count (pool : ConstantPool) : Nat := pool.slots.size

/-- The constant with this index. -/
def get (pool : ConstantPool) (index : UInt16) : Except ClassFileError Constant :=
  match pool.slots[index.toNat]? with
  | some (some constant) => .ok constant
  | _ => .error (.badConstantIndex index)

/-- The encoded text with this index. -/
def utf8Bytes (pool : ConstantPool) (index : UInt16) : Except ClassFileError Bytes := do
  match ← pool.get index with
  | .utf8 bytes => .ok bytes
  | _ => .error (.wrongConstantType index .utf8)

/-- The text with this index. -/
def utf8 (pool : ConstantPool) (index : UInt16) : Except ClassFileError String := do
  let bytes ← pool.utf8Bytes index
  match Text.ModifiedUtf8.decode? bytes with
  | some text => .ok text
  | none => .error .invalidUtf8

/-- Whether the entry with this index is the prescribed encoding of the text.
The entry is not decoded: other spellings of the same text do not match. -/
def utf8Matches (pool : ConstantPool) (index : UInt16) (text : String) : Bool :=
  match pool.get index with
  | .ok (.utf8 bytes) => bytes == Text.ModifiedUtf8.encode text
  | _ => false

/-- The internal name of the class with this index. -/
def className (pool : ConstantPool) (index : UInt16) : Except ClassFileError String := do
  match ← pool.get index with
  | .classInfo name => pool.utf8 name
  | _ => .error (.wrongConstantType index .classEntry)

/-- The text of the string constant with this index. A constant of another kind
holds no string text. -/
def stringText? (pool : ConstantPool) (index : UInt16) : Option String :=
  match pool.get index with
  | .ok (.string text) => (pool.utf8 text).toOption
  | _ => none

/-- The field, method or interface method with this index. Both indices of the
reference are followed: first the name-and-type entry is required to be one,
then the class, the name and the descriptor are resolved in this order. -/
def memberReference (pool : ConstantPool) (index : UInt16) :
    Except ClassFileError MemberReference := do
  match ← pool.get index with
  | .fieldRef owner nameAndType | .methodRef owner nameAndType
  | .interfaceMethodRef owner nameAndType =>
    match ← pool.get nameAndType with
    | .nameAndType name descriptor =>
      let owner ← pool.className owner
      let name ← pool.utf8 name
      let descriptor ← pool.utf8 descriptor
      return ⟨owner, name, descriptor⟩
    | _ => .error (.wrongConstantType nameAndType .nameAndType)
  | _ => .error (.wrongConstantType index .memberReference)

end ConstantPool

end Lookout
