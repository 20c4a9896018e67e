/-
# Rehearsing a prologue

A rehearsal executes the start of a method up to the point where the stack of
the thread has been printed, and models just the calls that a prologue makes.
Code that does anything else cannot be rehearsed. What the code would print is
collected, which is how a prologue can be compared with the report that it is
meant to produce.
-/

import Lookout.ClassFile.Format
import Lookout.ClassFile.Lookup
import Lookout.Diagnostic
import Lookout.Instruction.Listing

namespace Lookout

/-- What code can find out about the thread and object it runs on. -/
structure Surroundings where
  threadName : String
  command : List String
  stack : List StackFrame

/-- What a rehearsal comes to. -/
structure Rehearsal where
  /-- All that was printed. -/
  output : String
  /-- Lines printed before the stack trace. -/
  lines : Nat
  /-- Stack traces printed. -/
  dumps : Nat
  /-- The offset behind the call that printed the stack trace, or 0. -/
  resumeOffset : Nat
  deriving DecidableEq

namespace Rehearsal

/-- A value on the operand stack. -/
inductive Value where
  | printStream
  | receiver
  | thread
  | text (text : String)
  | list (items : List String)
  deriving DecidableEq

/-- How far a rehearsal has come. -/
structure Scene where
  /-- The operand stack, topmost value first. -/
  operands : List Value
  output : String
  lines : Nat

namespace Scene

/-- Before anything has happened. -/
def opening : Scene := ⟨[], "", 0⟩

/-- Put a value on the operand stack. -/
def push (value : Value) (scene : Scene) : Scene :=
  { scene with operands := value :: scene.operands }

/-- The scene with other operands. -/
def withOperands (operands : List Value) (scene : Scene) : Scene := { scene with operands }

end Scene

/-- What one instruction leads to. -/
inductive Turn where
  | goesOn (scene : Scene)
  | ends (rehearsal : Rehearsal)

/-- Call a method, by its class and name. -/
def call (surroundings : Surroundings) (resumeOffset : Nat) (owner name : String)
    (scene : Scene) : Option Turn :=
  match owner, name, scene.operands with
  | "java/lang/Thread", "currentThread", _ => some (.goesOn (scene.push .thread))
  | "java/lang/Thread", "getName", .thread :: rest =>
    some (.goesOn (scene.withOperands (.text surroundings.threadName :: rest)))
  | "java/lang/String", "concat", .text tail :: .text head :: rest =>
    some (.goesOn (scene.withOperands (.text (head ++ tail) :: rest)))
  | "java/lang/String", "join", .list items :: .text separator :: rest =>
    some (.goesOn (scene.withOperands (.text (separator.intercalate items) :: rest)))
  | "java/io/PrintStream", "println", .text line :: .printStream :: rest =>
    some (.goesOn ⟨rest, scene.output ++ Diagnostic.asLine line, scene.lines + 1⟩)
  | "java/lang/Thread", "dumpStack", [] =>
    some (.ends ⟨scene.output ++ Diagnostic.stackTrace surroundings.stack, scene.lines, 1,
      resumeOffset⟩)
  | _, _, _ => none

/-- The member that the two-byte operand of an instruction refers to. -/
def operandMember? (pool : ConstantPool) (instruction : Instruction) : Option MemberReference := do
  let index ← Bytes.word16? instruction.operands
  (pool.memberReference index).toOption

/-- Execute one instruction. -/
def step (pool : ConstantPool) (surroundings : Surroundings) (instruction : Instruction)
    (scene : Scene) : Option Turn :=
  let opcode := instruction.opcode
  if opcode = Opcode.nop then some (.goesOn scene)
  else if opcode = Opcode.aload0 then some (.goesOn (scene.push .receiver))
  else if opcode = Opcode.ldc then do
    let index ← instruction.operands.head?
    let text ← pool.stringText? index.toUInt16
    return .goesOn (scene.push (.text text))
  else if opcode = Opcode.ldcW then do
    let index ← Bytes.word16? instruction.operands
    let text ← pool.stringText? index
    return .goesOn (scene.push (.text text))
  else if opcode = Opcode.getstatic then do
    let field ← operandMember? pool instruction
    if field.owner = "java/lang/System" ∧ field.name = "err" then
      return .goesOn (scene.push .printStream)
    else none
  else if opcode = Opcode.getfield then do
    let field ← operandMember? pool instruction
    match scene.operands with
    | .receiver :: rest =>
      if field.name = "command" then
        return .goesOn (scene.withOperands (.list surroundings.command :: rest))
      else none
    | _ => none
  else if opcode = Opcode.invokestatic ∨ opcode = Opcode.invokevirtual then do
    let method ← operandMember? pool instruction
    call surroundings (instruction.offset + instruction.length) method.owner method.name scene
  else none

/-- Execute instructions until the rehearsal ends. If the instructions run out
before, it ends without a stack trace, unless they ran out because of a failure
to decode. -/
def run (pool : ConstantPool) (surroundings : Surroundings) (failure : Option ClassFileError) :
    Scene → List Instruction → Option Rehearsal
  | scene, [] =>
    match failure with
    | none => some ⟨scene.output, scene.lines, 0, 0⟩
    | some _ => none
  | scene, instruction :: later =>
    match step pool surroundings instruction scene with
    | none => none
    | some (.ends rehearsal) => some rehearsal
    | some (.goesOn scene) => run pool surroundings failure scene later

/-- Rehearse code whose constants are in the pool. -/
def ofCode (pool : ConstantPool) (surroundings : Surroundings) (code : Bytes) :
    Option Rehearsal :=
  let listing := Listing.ofCode code
  run pool surroundings listing.failure Scene.opening listing.instructions

/-- Rehearse a method of the class that the data holds. -/
def ofMethod (data : Bytes) (name descriptor : String) (surroundings : Surroundings) :
    Option Rehearsal := do
  let file ← (ClassFile.ofBytes data).toOption
  let index ← file.findMethod? name descriptor
  let body ← (file.methodCode index).toOption
  let body ← body
  ofCode file.pool surroundings body.code

end Rehearsal

end Lookout
