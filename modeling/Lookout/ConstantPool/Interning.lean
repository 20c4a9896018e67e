/-
# Interning constants

An interned constant is the first equal entry if there is one, and otherwise a
new entry at the end. Entries are never moved or removed, so an index handed
out once stays good. A compound entry interns its parts first, and if a later
part finds the pool full, the parts before it stay.
-/

import Lookout.ConstantPool.Basic

namespace Lookout

/-- A computation that may add constants to a pool. Additions survive failure. -/
abbrev Interning := ExceptT ClassFileError (StateM ConstantPool)

namespace ConstantPool

/-- The most slots that a pool may have. -/
def maxSlots : Nat := 65535

/-- The index of the first entry that equals the constant. -/
def indexOf? (pool : ConstantPool) (constant : Constant) : Option UInt16 :=
  (pool.slots.findIdx? (· == some constant)).map UInt16.ofNat

/-- The slots that an entry takes: its own, and an empty one if it is wide. -/
def slotsOf (constant : Constant) : List (Option Constant) :=
  if constant.isWide then [some constant, none] else [some constant]

/-- Append an entry, if all its slots have room. -/
def append (pool : ConstantPool) (constant : Constant) :
    Except ClassFileError UInt16 × ConstantPool :=
  let added := slotsOf constant
  if pool.count + added.length ≤ maxSlots then
    (.ok (UInt16.ofNat pool.count), ⟨pool.slots ++ added⟩)
  else (.error .poolOverflow, pool)

/-- Find the constant, or append it. -/
def intern (pool : ConstantPool) (constant : Constant) :
    Except ClassFileError UInt16 × ConstantPool :=
  match pool.indexOf? constant with
  | some index => (.ok index, pool)
  | none => pool.append constant

end ConstantPool

namespace Interning

/-- The index of this constant. -/
def constant (constant : Constant) : Interning UInt16 := fun pool => pool.intern constant

/-- The index of this text. -/
def utf8 (text : String) : Interning UInt16 :=
  Interning.constant (.utf8 (Text.ModifiedUtf8.encode text))

/-- The index of the class with this internal name. -/
def classInfo (internalName : String) : Interning UInt16 := do
  let name ← utf8 internalName
  constant (.classInfo name)

/-- The index of the string constant with this text. -/
def string (text : String) : Interning UInt16 := do
  let text ← utf8 text
  constant (.string text)

/-- The index of this pair of name and descriptor. -/
def nameAndType (name descriptor : String) : Interning UInt16 := do
  let name ← utf8 name
  let descriptor ← utf8 descriptor
  constant (.nameAndType name descriptor)

/-- The index of the reference that `make` forms from the indices of the class
and of the name and descriptor. -/
def reference (make : UInt16 → UInt16 → Constant) (member : MemberReference) :
    Interning UInt16 := do
  let owner ← classInfo member.owner
  let nameAndType ← nameAndType member.name member.descriptor
  constant (make owner nameAndType)

/-- The index of the reference to this field. -/
def fieldRef (member : MemberReference) : Interning UInt16 :=
  reference .fieldRef member

/-- The index of the reference to this method of a class. -/
def methodRef (member : MemberReference) : Interning UInt16 :=
  reference .methodRef member

/-- The index of the reference to this method of an interface. -/
def interfaceMethodRef (member : MemberReference) : Interning UInt16 :=
  reference .interfaceMethodRef member

end Interning

end Lookout
