/-
# Sample classes

Small classes of the shape that the built-in targets have, put together with
the operations of this library, and a host that has the targets loaded.
-/

import Lookout.ClassFile.Edit
import Lookout.Host.Basic
import Lookout.StackMap.Format

namespace Lookout.Sample

/-- The superclass of all samples. -/
def rootClass : String := "java/lang/Object"

/-- The class file version of all samples. -/
def majorVersion : UInt16 := 52

/-- The data of a class that is created and then edited. What an edit does before
it fails counts. -/
def build {α : Type} (internalName : String) (action : ClassEdit α) : Bytes :=
  match ClassFile.create internalName rootClass majorVersion with
  | .ok file => (file.edit action).2.bytes
  | .error _ => []

/-- Set the access flags of the class. -/
def setAccess (access : UInt16) : ClassEdit Unit :=
  modify fun file => { file with access }

/-- The name of the class that ends the process. -/
def shutdownName : String := "java/lang/Shutdown"

/-- The method that really ends the process. -/
def halt0 : MemberReference := ⟨shutdownName, "halt0", "(I)V"⟩

/-- `halt(int)`: a branch to pick the status, and a handler that rethrows. -/
def haltBody (halt0 throwable stackMap lineNumbers : UInt16) : MethodCode where
  maxStack := 1
  maxLocals := 2
  code :=
    [Opcode.iload0, -- 0
      Opcode.ifeq, 0x00, 0x08, -- 1, to 9
      Opcode.iload0] ++ -- 4
    Assembly.withOperand Opcode.invokestatic halt0 ++ -- 5
    [Opcode.returnVoid, -- 8
      Opcode.iconst1] ++ -- 9
    Assembly.withOperand Opcode.invokestatic halt0 ++ -- 10
    [Opcode.returnVoid, -- 13
      Opcode.astore1, -- 14
      Opcode.aload1, -- 15
      Opcode.athrow] -- 16
  exceptions := [⟨0, 14, 14, throwable⟩]
  attributes :=
    [⟨stackMap, StackMapTable.bytes ⟨[.same 9, .sameLocalsOneStackItem 4 (.object throwable)]⟩⟩,
      ⟨lineNumbers, DebugTable.bytes LineEntry.bytes [⟨0, 170⟩, ⟨9, 172⟩]⟩]

/-- `halt(long)`, which no report goes into. -/
def haltLongBody (halt0 : UInt16) : MethodCode :=
  .plain 2 2 ([Opcode.lload0, Opcode.l2i] ++ Assembly.withOperand Opcode.invokestatic halt0 ++
    [Opcode.returnVoid])

/-- The class that ends the process, with or without the method that is a target. -/
def shutdown (withHalt : Bool) : Bytes :=
  build shutdownName do
    setAccess (Access.finalFlag ||| Access.superFlag)
    let halt0 ← ClassEdit.interned (Interning.methodRef halt0)
    let throwable ← ClassEdit.interned (Interning.classInfo "java/lang/Throwable")
    let stackMap ← ClassEdit.interned (Interning.utf8 StackMapTable.attributeName)
    let lineNumbers ← ClassEdit.interned (Interning.utf8 LineEntry.attributeName)
    if withHalt then
      let _ ← ClassEdit.addMethod Access.staticFlag "halt" "(I)V"
        (some (haltBody halt0 throwable stackMap lineNumbers))
    let _ ← ClassEdit.addMethod Access.staticFlag "halt" "(J)V" (some (haltLongBody halt0))
    let _ ← ClassEdit.addMethod (Access.staticFlag ||| Access.nativeFlag ||| Access.privateFlag)
      "halt0" "(I)V" none

/-- The name of the class that launches processes. -/
def processBuilderName : String := "java/lang/ProcessBuilder"

/-- The descriptor of the overload that `start()` delegates to. -/
def redirectDescriptor : String :=
  "([Ljava/lang/ProcessBuilder$Redirect;)Ljava/lang/Process;"

/-- `start()`: pass an empty array on. -/
def startBody (redirect start : UInt16) : MethodCode :=
  .plain 2 1 ([Opcode.aload0, Opcode.iconst0] ++ Assembly.withOperand Opcode.anewarray redirect ++
    Assembly.withOperand Opcode.invokespecial start ++ [Opcode.areturn])

/-- The class that launches processes, with or without the field that holds the
command. -/
def processBuilder (withCommand : Bool) : Bytes :=
  build processBuilderName do
    setAccess (Access.publicFlag ||| Access.finalFlag ||| Access.superFlag)
    if withCommand then
      let _ ← ClassEdit.addField Access.privateFlag DiagnosticPrologue.commandFieldName
        DiagnosticPrologue.commandFieldDescriptor
    let redirect ← ClassEdit.interned (Interning.classInfo "java/lang/ProcessBuilder$Redirect")
    let start ← ClassEdit.interned
      (Interning.methodRef ⟨processBuilderName, "start", redirectDescriptor⟩)
    let _ ← ClassEdit.addMethod Access.publicFlag "start" "()Ljava/lang/Process;"
      (some (startBody redirect start))
    let _ ← ClassEdit.addMethod Access.privateFlag "start" redirectDescriptor
      (some (.plain 1 2 [Opcode.aconstNull, Opcode.areturn]))

/-- A class with this name that has nothing to report. -/
def plain (internalName : String) : Bytes :=
  build internalName do
    let _ ← ClassEdit.addMethod Access.publicFlag "run" "()V"
      (some (.plain 0 1 [Opcode.returnVoid]))

/-- A host with both targets loaded. -/
def hostWithTargets : Host :=
  (Host.empty.preload shutdownName (shutdown true)).preload processBuilderName
    (processBuilder true)

end Lookout.Sample
