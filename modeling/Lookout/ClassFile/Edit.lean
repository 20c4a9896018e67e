/-
# Building and editing classes

Edits intern the names they need before they touch anything else. An edit that
fails keeps what it did before it failed: constants stay in the pool, and a
method whose code could not be attached stays without code.
-/

import Lookout.ClassFile.Format
import Lookout.ClassFile.Lookup
import Lookout.ConstantPool.Interning
import Lookout.MethodCode.Prologue

namespace Lookout

/-- An edit of a class. Its effect survives failure. -/
abbrev ClassEdit := ExceptT ClassFileError (StateM ClassFile)

namespace Member

/-- Give the first attribute that has the name the new body, or append the new
attribute if none has it. -/
def replaceAttribute (pool : ConstantPool) (name : String) (item : Attribute)
    (member : Member) : Member :=
  match member.attributes.findIdx? (Attribute.isNamed pool name) with
  | some index =>
    { member with
      attributes := member.attributes.modify index fun old => { old with info := item.info } }
  | none => { member with attributes := member.attributes ++ [item] }

/-- Append the attribute unless one with the name is there. -/
def ensureAttribute (pool : ConstantPool) (name : String) (item : Attribute)
    (member : Member) : Member :=
  if member.hasAttribute pool name then member
  else { member with attributes := member.attributes ++ [item] }

/-- Append the attribute. -/
def appendAttribute (item : Attribute) (member : Member) : Member :=
  { member with attributes := member.attributes ++ [item] }

end Member

namespace ClassEdit

/-- Intern constants into the pool of the class. -/
def interned {α : Type} (action : Interning α) : ClassEdit α := fun file =>
  let (result, pool) := action file.pool
  (result, { file with pool })

/-- Continue with a value that was computed without an edit. -/
def ofExcept {α : Type} (result : Except ClassFileError α) : ClassEdit α := fun file =>
  (result, file)

/-- Change the method with this index. -/
def changeMethod (index : Nat) (change : ConstantPool → Member → Member) : ClassEdit Unit :=
  fun file =>
    match file.methods[index]? with
    | some method =>
      (.ok (), { file with methods := file.methods.set index (change file.pool method) })
    | none => (.error (.noSuchMember index), file)

/-- Change the field with this index. -/
def changeField (index : Nat) (change : ConstantPool → Member → Member) : ClassEdit Unit :=
  fun file =>
    match file.fields[index]? with
    | some field =>
      (.ok (), { file with fields := file.fields.set index (change file.pool field) })
    | none => (.error (.noSuchMember index), file)

/-- Give a method this code, in place of what it has. -/
def setMethodCode (index : Nat) (body : MethodCode) : ClassEdit Unit := do
  let nameIndex ← interned (Interning.utf8 MethodCode.attributeName)
  changeMethod index fun pool =>
    Member.replaceAttribute pool MethodCode.attributeName ⟨nameIndex, body.bytes⟩

/-- Add an attribute to a method unless it has one with this name. -/
def addMethodAttribute (index : Nat) (name : String) (info : Bytes) : ClassEdit Unit := do
  let nameIndex ← interned (Interning.utf8 name)
  changeMethod index fun pool => Member.ensureAttribute pool name ⟨nameIndex, info⟩

/-- Put a fragment in front of the code of a method. There is nothing to do for a
method without code. -/
def insertPrologue (index : Nat) (fragment : Fragment) : ClassEdit (Option Unit) := do
  let file ← get
  match ← ofExcept (file.methodCode index) with
  | none => return none
  | some body =>
    let body ← ofExcept (body.insertPrologue file.pool fragment)
    setMethodCode index body
    return some ()

/-- Append an attribute of the class. -/
def addAttribute (item : Attribute) : ClassEdit Unit :=
  modify fun file => { file with attributes := file.attributes ++ [item] }

/-- Append an interface that the class implements. -/
def addInterface (name : String) : ClassEdit UInt16 := do
  let index ← interned (Interning.classInfo name)
  modifyGet fun file => (index, { file with interfaces := file.interfaces ++ [index] })

/-- Append a member without attributes to the fields. -/
def addField (access : UInt16) (name descriptor : String) : ClassEdit Nat := do
  let nameIndex ← interned (Interning.utf8 name)
  let descriptorIndex ← interned (Interning.utf8 descriptor)
  modifyGet fun file =>
    (file.fields.length,
      { file with fields := file.fields ++ [⟨access, nameIndex, descriptorIndex, []⟩] })

/-- Append a member to the methods, and attach its code if it has any. -/
def addMethod (access : UInt16) (name descriptor : String) (code : Option MethodCode) :
    ClassEdit Nat := do
  let nameIndex ← interned (Interning.utf8 name)
  let descriptorIndex ← interned (Interning.utf8 descriptor)
  let index ← modifyGet fun file =>
    (file.methods.length,
      { file with methods := file.methods ++ [⟨access, nameIndex, descriptorIndex, []⟩] })
  match code with
  | some body => setMethodCode index body
  | none => pure ()
  return index

end ClassEdit

namespace ClassFile

/-- A public class without members. -/
def create (internalName superName : String) (majorVersion : UInt16) :
    Except ClassFileError ClassFile :=
  let names : Interning (UInt16 × UInt16) := do
    let thisClass ← Interning.classInfo internalName
    let superClass ← Interning.classInfo superName
    return (thisClass, superClass)
  match names ConstantPool.empty with
  | (.error fault, _) => .error fault
  | (.ok (thisClass, superClass), pool) =>
    .ok {
      minorVersion := 0, majorVersion, pool
      access := Access.publicFlag ||| Access.superFlag
      thisClass, superClass
      interfaces := [], fields := [], methods := [], attributes := [] }

/-- Apply an edit, keeping what it did even if it fails. -/
def edit {α : Type} (file : ClassFile) (action : ClassEdit α) :
    Except ClassFileError α × ClassFile :=
  action file

end ClassFile

end Lookout
