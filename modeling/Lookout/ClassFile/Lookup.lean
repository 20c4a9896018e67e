/-
# Finding things in a class

Members and attributes are found by comparing encoded bytes, without decoding
the names in the class, so a name that does not decode is simply not found.
The first match counts.
-/

import Lookout.ClassFile.Basic

namespace Lookout

namespace Attribute

/-- Whether the attribute has this name. -/
def isNamed (pool : ConstantPool) (name : String) (item : Attribute) : Bool :=
  pool.utf8Matches item.nameIndex name

end Attribute

namespace Member

/-- The first attribute with this name. -/
def attribute? (pool : ConstantPool) (name : String) (member : Member) : Option Attribute :=
  member.attributes.find? (Attribute.isNamed pool name)

/-- Whether the member has an attribute with this name. -/
def hasAttribute (pool : ConstantPool) (name : String) (member : Member) : Bool :=
  (member.attribute? pool name).isSome

/-- Whether the member has this name and descriptor. -/
def isCalled (pool : ConstantPool) (name descriptor : String) (member : Member) : Bool :=
  pool.utf8Matches member.nameIndex name && pool.utf8Matches member.descriptorIndex descriptor

/-- The code of the member, if it has any. -/
def code? (pool : ConstantPool) (member : Member) :
    Except ClassFileError (Option MethodCode) :=
  match member.attribute? pool MethodCode.attributeName with
  | some found => (MethodCode.ofBytes found.info).map some
  | none => .ok none

end Member

namespace ClassFile

/-- The internal name of the class. -/
def name (file : ClassFile) : Except ClassFileError String :=
  file.pool.className file.thisClass

/-- The index of the method with this name and descriptor. -/
def findMethod? (file : ClassFile) (name descriptor : String) : Option Nat :=
  file.methods.findIdx? (Member.isCalled file.pool name descriptor)

/-- The index of the field with this name and descriptor. -/
def findField? (file : ClassFile) (name descriptor : String) : Option Nat :=
  file.fields.findIdx? (Member.isCalled file.pool name descriptor)

/-- The indices of all methods with this name, in order. -/
def methodsNamed (file : ClassFile) (name : String) : List Nat :=
  file.methods.zipIdx.filterMap fun (method, index) =>
    if file.pool.utf8Matches method.nameIndex name then some index else none

/-- The method with this index. -/
def method (file : ClassFile) (index : Nat) : Except ClassFileError Member :=
  match file.methods[index]? with
  | some found => .ok found
  | none => .error (.noSuchMember index)

/-- The code of the method with this index, if it has any. -/
def methodCode (file : ClassFile) (index : Nat) : Except ClassFileError (Option MethodCode) := do
  let method ← file.method index
  method.code? file.pool

end ClassFile

end Lookout
