/-
# Class files

A class in editable form. Names and types are pool indices throughout, so
everything that is not looked into keeps the exact bytes it came with.
-/

import Lookout.ConstantPool.Basic
import Lookout.MethodCode.Basic

namespace Lookout

-- The access flags of classes and members that this library sets or tests.
namespace Access

/-- Visible everywhere. -/
def publicFlag : UInt16 := 0x0001
/-- Visible in the class alone. -/
def privateFlag : UInt16 := 0x0002
/-- Belongs to the class and not to an instance. -/
def staticFlag : UInt16 := 0x0008
/-- Not to be extended or assigned. -/
def finalFlag : UInt16 := 0x0010
/-- Calls to methods of the superclass are resolved at run time. -/
def superFlag : UInt16 := 0x0020
/-- Implemented outside of the class file. -/
def nativeFlag : UInt16 := 0x0100

end Access

/-- A field or method. -/
structure Member where
  access : UInt16
  nameIndex : UInt16
  descriptorIndex : UInt16
  attributes : List Attribute
  deriving DecidableEq

/-- A class. -/
structure ClassFile where
  minorVersion : UInt16
  majorVersion : UInt16
  pool : ConstantPool
  access : UInt16
  thisClass : UInt16
  superClass : UInt16
  interfaces : List UInt16
  fields : List Member
  methods : List Member
  attributes : List Attribute
  deriving DecidableEq

namespace Member

/-- Whether the member belongs to the class and not to an instance. -/
def isStatic (member : Member) : Bool := member.access &&& Access.staticFlag != 0

/-- The member as it is written. -/
def bytes (member : Member) : Bytes :=
  Word.bytes16 member.access ++ (Word.bytes16 member.nameIndex ++
    (Word.bytes16 member.descriptorIndex ++ Attribute.listBytes member.attributes))

/-- Read a member. -/
def read : Reader Member := do
  let access ← Reader.word16
  let nameIndex ← Reader.word16
  let descriptorIndex ← Reader.word16
  let attributes ← Attribute.readList
  return ⟨access, nameIndex, descriptorIndex, attributes⟩

/-- A list of members as it is written. -/
def listBytes (members : List Member) : Bytes :=
  Word.count16 members.length ++ members.flatMap bytes

/-- Read a list of members. -/
def readList : Reader (List Member) := Reader.table read

end Member

end Lookout
