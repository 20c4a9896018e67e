/-
# Rehearsing code piece by piece

A rehearsal of code that starts anywhere is described by what it does before it
comes to the code behind. Straight code `Performs` a change of the scene,
wherever it stands and whatever follows it; code that prints the stack
`Concludes` the rehearsal. Pieces that stand in a row perform their changes in a
row.
-/

import Lookout.Fragment.Assembly
import Lookout.Proofs.Instruction.Listing
import Lookout.Rehearsal

namespace Lookout.Rehearsal

/-- Rehearse the code that starts at the offset, going on from the scene. -/
def ofCodeFrom (pool : ConstantPool) (surroundings : Surroundings) (offset : Nat) (code : Bytes)
    (scene : Scene) : Option Rehearsal :=
  run pool surroundings (Listing.startingAt offset code).failure scene
    (Listing.startingAt offset code).instructions

theorem ofCode_eq_ofCodeFrom (pool : ConstantPool) (surroundings : Surroundings) (code : Bytes) :
    ofCode pool surroundings code = ofCodeFrom pool surroundings 0 code Scene.opening := rfl

variable (pool : ConstantPool) (surroundings : Surroundings)

/-- The first instruction is executed, and the rest of the code behind it. -/
theorem ofCodeFrom_instruction {instruction : Instruction} (whole : instruction.IsWhole)
    (rest : Bytes) (scene : Scene) :
    ofCodeFrom pool surroundings instruction.offset
        (instruction.opcode :: (instruction.operands ++ rest)) scene =
      match step pool surroundings instruction scene with
      | none => none
      | some (.ends rehearsal) => some rehearsal
      | some (.goesOn scene) =>
        ofCodeFrom pool surroundings (instruction.offset + instruction.length) rest scene := by
  rw [ofCodeFrom, Listing.startingAt_instruction whole]
  rfl

/-- A rehearsal that comes to the code in the first scene leaves it in the second. -/
def Performs (code : Bytes) (before after : Scene) : Prop :=
  ∀ offset rest, ofCodeFrom pool surroundings offset (code ++ rest) before =
    ofCodeFrom pool surroundings (offset + code.length) rest after

/-- A rehearsal that comes to the code in the scene ends in it, after this output and
this many lines, with its last instruction printing the stack trace. -/
def Concludes (code : Bytes) (before : Scene) (output : String) (lines : Nat) : Prop :=
  ∀ offset rest, ofCodeFrom pool surroundings offset (code ++ rest) before =
    some ⟨output, lines, 1, offset + code.length⟩

variable {pool : ConstantPool} {surroundings : Surroundings}

theorem Performs.append {front back : Bytes} {before between after : Scene}
    (first : Performs pool surroundings front before between)
    (second : Performs pool surroundings back between after) :
    Performs pool surroundings (front ++ back) before after := by
  intro offset rest
  rw [List.append_assoc, first offset, second, List.length_append, Nat.add_assoc]

theorem Performs.concludes {front back : Bytes} {before between : Scene} {output : String}
    {lines : Nat} (first : Performs pool surroundings front before between)
    (second : Concludes pool surroundings back between output lines) :
    Concludes pool surroundings (front ++ back) before output lines := by
  intro offset rest
  rw [List.append_assoc, first offset, second, List.length_append, Nat.add_assoc]

/-- An instruction that has the same effect wherever it stands. -/
theorem performs_instruction {opcode : UInt8} {operands : Bytes} {before after : Scene}
    (fixed : Opcode.fixedLength opcode = some (operands.length + 1))
    (turns : ∀ offset, step pool surroundings ⟨offset, opcode, operands⟩ before =
      some (.goesOn after)) :
    Performs pool surroundings (opcode :: operands) before after := by
  intro offset rest
  have executed := ofCodeFrom_instruction pool surroundings
    (Instruction.isWhole_of_fixedLength offset fixed) rest before
  rw [turns] at executed
  exact executed

theorem concludes_instruction {opcode : UInt8} {operands : Bytes} {before : Scene}
    {output : String} {lines : Nat}
    (fixed : Opcode.fixedLength opcode = some (operands.length + 1))
    (turns : ∀ offset, step pool surroundings ⟨offset, opcode, operands⟩ before =
      some (.ends ⟨output, lines, 1, offset + (operands.length + 1)⟩)) :
    Concludes pool surroundings (opcode :: operands) before output lines := by
  intro offset rest
  have executed := ofCodeFrom_instruction pool surroundings
    (Instruction.isWhole_of_fixedLength offset fixed) rest before
  rw [turns] at executed
  exact executed

/-! ### The instructions of a prologue -/

theorem operandMember?_withOperand {index : UInt16} {member : MemberReference} (offset : Nat)
    (opcode : UInt8) (found : pool.memberReference index = .ok member) :
    operandMember? pool ⟨offset, opcode, Word.bytes16 index⟩ = some member := by
  simp only [operandMember?, Word.word16?_bytes16, Option.bind_eq_bind, Option.bind_some, found]
  rfl

theorem performs_ldc {index : UInt16} {text : String} (found : pool.stringText? index = some text)
    (scene : Scene) :
    Performs pool surroundings (Assembly.ldcBytes index) scene (scene.push (.text text)) := by
  unfold Assembly.ldcBytes
  by_cases short : index ≤ 255
  · rw [if_pos short]
    apply performs_instruction rfl
    intro offset
    show (pool.stringText? index.toUInt8.toUInt16).bind
      (fun text => some (Turn.goesOn (scene.push (.text text)))) = _
    rw [Word.toUInt16_toUInt8 short, found]
    rfl
  · rw [if_neg short]
    apply performs_instruction rfl
    intro offset
    show (Bytes.word16? (Word.bytes16 index)).bind (fun index => (pool.stringText? index).bind
      fun text => some (Turn.goesOn (scene.push (.text text)))) = _
    rw [Word.word16?_bytes16, Option.bind_some, found]
    rfl

theorem performs_aload0 (scene : Scene) :
    Performs pool surroundings (Assembly.aloadBytes 0) scene (scene.push .receiver) :=
  performs_instruction rfl fun _ => rfl

theorem performs_getstatic {index : UInt16} {field : MemberReference}
    (found : pool.memberReference index = .ok field) (owner : field.owner = "java/lang/System")
    (name : field.name = "err") (scene : Scene) :
    Performs pool surroundings (Assembly.withOperand Opcode.getstatic index) scene
      (scene.push .printStream) := by
  apply performs_instruction rfl
  intro offset
  show (operandMember? pool ⟨offset, Opcode.getstatic, Word.bytes16 index⟩).bind (fun field =>
    if field.owner = "java/lang/System" ∧ field.name = "err" then
      some (Turn.goesOn (scene.push .printStream))
    else none) = _
  rw [operandMember?_withOperand offset _ found, Option.bind_some, if_pos ⟨owner, name⟩]

theorem performs_getfield {index : UInt16} {field : MemberReference}
    (found : pool.memberReference index = .ok field) (name : field.name = "command")
    {scene : Scene} {rest : List Value} (receiver : scene.operands = .receiver :: rest) :
    Performs pool surroundings (Assembly.withOperand Opcode.getfield index) scene
      (scene.withOperands (.list surroundings.command :: rest)) := by
  apply performs_instruction rfl
  intro offset
  have isGetfield : step pool surroundings ⟨offset, Opcode.getfield, Word.bytes16 index⟩ scene =
      (operandMember? pool ⟨offset, Opcode.getfield, Word.bytes16 index⟩).bind _ := rfl
  rw [isGetfield, operandMember?_withOperand offset _ found, Option.bind_some, receiver]
  exact if_pos name

section Calls

variable {opcode : UInt8} (isCall : opcode = Opcode.invokestatic ∨ opcode = Opcode.invokevirtual)
  {index : UInt16} {method : MemberReference} (found : pool.memberReference index = .ok method)

include isCall found

private theorem step_call (offset : Nat) (scene : Scene) :
    step pool surroundings ⟨offset, opcode, Word.bytes16 index⟩ scene =
      call surroundings (offset + 3) method.owner method.name scene := by
  have member := operandMember?_withOperand offset opcode found
  have executed : step pool surroundings ⟨offset, opcode, Word.bytes16 index⟩ scene =
      (operandMember? pool ⟨offset, opcode, Word.bytes16 index⟩).bind fun method =>
        call surroundings (offset + 3) method.owner method.name scene := by
    rcases isCall with rfl | rfl
    · rfl
    · rfl
  rw [executed, member, Option.bind_some]

theorem performs_call {before after : Scene}
    (calls : ∀ resumeOffset, call surroundings resumeOffset method.owner method.name before =
      some (.goesOn after)) :
    Performs pool surroundings (Assembly.withOperand opcode index) before after := by
  refine performs_instruction ?_ fun offset => ?_
  · rcases isCall with rfl | rfl <;> rfl
  · rw [step_call isCall found, calls]

theorem concludes_call {before : Scene} {output : String} {lines : Nat}
    (calls : ∀ resumeOffset, call surroundings resumeOffset method.owner method.name before =
      some (.ends ⟨output, lines, 1, resumeOffset⟩)) :
    Concludes pool surroundings (Assembly.withOperand opcode index) before output lines := by
  refine concludes_instruction ?_ fun offset => ?_
  · rcases isCall with rfl | rfl <;> rfl
  · rw [step_call isCall found, calls]
    rfl

end Calls

end Lookout.Rehearsal
