/-
# Assembled code reads as the calls that made it

An instruction is taken back to the call that it comes from by its opcode and by what
its operand leads to. Of the forms that an index can be written in, only the shortest is
accepted. Whatever an assembler is asked for, with failures in between, its code lists
as one instruction for each call that succeeded, and in the pool as it is in the end
each of them is taken back to its call.
-/

import Lookout.Proofs.Fragment.Calls
import Lookout.Proofs.Instruction.Listing
import Lookout.Rehearsal

namespace Lookout

/-- What an instruction with this opcode does with the member that it refers to. -/
def MemberUse.ofOpcode? (opcode : UInt8) : Option MemberUse :=
  [getstatic, getfield, invokestatic, invokevirtual, invokeinterface].find? (·.opcode == opcode)

namespace AssemblyCall

/-- The call that appends this instruction, if there is one. -/
def ofInstruction? (pool : ConstantPool) (instruction : Instruction) : Option AssemblyCall :=
  let opcode := instruction.opcode
  if opcode = Opcode.nop then some .nop
  else if Opcode.aload0 ≤ opcode ∧ opcode ≤ Opcode.aload0 + 3 then
    some (.aload (opcode - Opcode.aload0).toUInt16)
  else if opcode = Opcode.aload then do
    let index ← instruction.operands.head?
    if index ≤ 3 then none
    else return .aload index.toUInt16
  else if opcode = Opcode.wide then do
    let index ← Bytes.word16? instruction.operands.tail
    if instruction.operands.head? ≠ some Opcode.aload ∨ index ≤ 255 then none
    else return .aload index
  else if opcode = Opcode.ldc then do
    let index ← instruction.operands.head?
    let text ← pool.stringText? index.toUInt16
    return .ldc text
  else if opcode = Opcode.ldcW then do
    let index ← Bytes.word16? instruction.operands
    let text ← pool.stringText? index
    if index ≤ 255 then none
    else return .ldc text
  else do
    let use ← MemberUse.ofOpcode? opcode
    let member ← Rehearsal.operandMember? pool instruction
    return .refer use member

/-- The code is a single instruction, wherever it stands, and comes from the call. -/
def SpelledBy (pool : ConstantPool) (call : AssemblyCall) (code : Bytes) : Prop :=
  ∃ opcode operands, code = opcode :: operands ∧ ∀ offset,
    (Instruction.mk offset opcode operands).IsWhole ∧
      ofInstruction? pool ⟨offset, opcode, operands⟩ = some call

variable {pool : ConstantPool}

theorem spelledBy_nop : SpelledBy pool .nop [Opcode.nop] :=
  ⟨_, _, rfl, fun offset => ⟨Instruction.isWhole_of_fixedLength offset rfl, rfl⟩⟩

/-- The index of a local variable is read back from each of its three forms. -/
theorem spelledBy_aload (index : UInt16) :
    SpelledBy pool (.aload index) (Assembly.aloadBytes index) := by
  unfold Assembly.aloadBytes
  by_cases first : index ≤ 3
  · have oneOfFour : index = 0 ∨ index = 1 ∨ index = 2 ∨ index = 3 := by
      rw [UInt16.le_iff_toNat_le] at first
      simp only [← UInt16.toNat_inj]
      simp at first ⊢
      omega
    rcases oneOfFour with rfl | rfl | rfl | rfl
    all_goals
      refine ⟨_, _, rfl, fun offset => ⟨Instruction.isWhole_of_fixedLength offset rfl, ?_⟩⟩
      show some (aload (Opcode.aload0 + UInt16.toUInt8 _ - Opcode.aload0).toUInt16) = _
      rfl
  rw [if_neg first]
  by_cases short : index ≤ 255
  · have notFirst : ¬ index.toUInt8 ≤ 3 := by
      rw [UInt16.le_iff_toNat_le] at first short
      rw [UInt8.le_iff_toNat_le]
      simp at first short ⊢
      omega
    rw [if_pos short]
    refine ⟨_, _, rfl, fun offset => ⟨Instruction.isWhole_of_fixedLength offset rfl, ?_⟩⟩
    show (if index.toUInt8 ≤ 3 then none else some (aload index.toUInt8.toUInt16)) = _
    rw [if_neg notFirst, Word.toUInt16_toUInt8 short]
  · rw [if_neg short]
    refine ⟨_, _, rfl, fun offset => ⟨rfl, ?_⟩⟩
    show (Bytes.word16? (Word.bytes16 index)).bind (fun index =>
      if some Opcode.aload ≠ some Opcode.aload ∨ index ≤ 255 then none
      else some (aload index)) = _
    rw [Word.word16?_bytes16, Option.bind_some, if_neg]
    rintro (different | tooShort)
    · exact different rfl
    · exact short tooShort

/-- The text is found with either form of the instruction. -/
theorem spelledBy_ldc {text : String} {index : UInt16}
    (found : pool.stringText? index = some text) :
    SpelledBy pool (.ldc text) (Assembly.ldcBytes index) := by
  unfold Assembly.ldcBytes
  by_cases short : index ≤ 255
  · rw [if_pos short]
    refine ⟨_, _, rfl, fun offset => ⟨Instruction.isWhole_of_fixedLength offset rfl, ?_⟩⟩
    show (pool.stringText? index.toUInt8.toUInt16).bind (fun text => some (ldc text)) = _
    rw [Word.toUInt16_toUInt8 short, found]
    rfl
  · rw [if_neg short]
    refine ⟨_, _, rfl, fun offset => ⟨Instruction.isWhole_of_fixedLength offset rfl, ?_⟩⟩
    show (Bytes.word16? (Word.bytes16 index)).bind (fun index => (pool.stringText? index).bind
      fun text => if index ≤ 255 then none else some (ldc text)) = _
    rw [Word.word16?_bytes16, Option.bind_some, found, Option.bind_some, if_neg short]

/-- The member is found whatever is done with it, and whatever stands behind its index. -/
theorem spelledBy_refer (use : MemberUse) {member : MemberReference} {index : UInt16}
    (found : pool.memberReference index = .ok member) (effect : StackEffect) :
    SpelledBy pool (.refer use member) (use.bytes index effect) := by
  have atFront (back : Bytes) : Bytes.word16? (Word.bytes16 index ++ back) = some index :=
    Word.word16?_bytes16 index
  have spelled (back : Bytes) (offset : Nat) :
      ofInstruction? pool ⟨offset, use.opcode, Word.bytes16 index ++ back⟩ =
        some (.refer use member) := by
    have operand : Rehearsal.operandMember? pool
        ⟨offset, use.opcode, Word.bytes16 index ++ back⟩ = some member := by
      simp only [Rehearsal.operandMember?, atFront, Option.bind_eq_bind, Option.bind_some, found]
      rfl
    have isRefer : ofInstruction? pool ⟨offset, use.opcode, Word.bytes16 index ++ back⟩ =
        (Rehearsal.operandMember? pool
          ⟨offset, use.opcode, Word.bytes16 index ++ back⟩).bind fun member =>
            some (.refer use member) := by
      cases use <;> rfl
    rw [isRefer, operand, Option.bind_some]
  cases use with
  | invokeinterface =>
      exact ⟨_, _, rfl, fun offset =>
        ⟨Instruction.isWhole_of_fixedLength offset rfl, spelled _ offset⟩⟩
  | getstatic | getfield | invokestatic | invokevirtual =>
      exact ⟨_, _, rfl, fun offset =>
        ⟨Instruction.isWhole_of_fixedLength offset rfl, spelled [] offset⟩⟩

/-- What a call appends is a single instruction that comes from the call. -/
theorem spelledBy_of_describes {call : AssemblyCall} {code : Bytes}
    (described : call.Describes pool code) : SpelledBy pool call code := by
  cases call with
  | nop =>
      cases described
      exact spelledBy_nop
  | aload index =>
      cases described
      exact spelledBy_aload index
  | ldc text =>
      obtain ⟨index, found, rfl⟩ := described
      exact spelledBy_ldc found
  | refer use member =>
      obtain ⟨index, effect, found, rfl⟩ := described
      exact spelledBy_refer use found effect

end AssemblyCall

namespace RecordedAssembly

/-- The code is a row of instructions that come from the recorded calls, and go on doing
so however the pool grows. -/
def Disassembles (recorded : RecordedAssembly) : Prop :=
  ∃ instructions, Listing.Tiles 0 recorded.assembler.code.toList instructions ∧
    ∀ pool, recorded.assembler.pool.GrowsTo pool →
      instructions.map (AssemblyCall.ofInstruction? pool) = recorded.accepted.map some

variable {recorded : RecordedAssembly}

theorem disassembles_start (pool : ConstantPool) : (start pool).Disassembles :=
  ⟨[], .nil 0, fun _ _ => rfl⟩

/-- One call more: if it succeeds, there is one instruction more, and the others lead to
where they led before. -/
theorem Disassembles.serve (disassembles : recorded.Disassembles)
    (wellFormed : recorded.assembler.pool.WellFormed) (call : AssemblyCall) :
    (recorded.serve call).Disassembles := by
  obtain ⟨instructions, tiles, comeFrom⟩ := disassembles
  have grows := (grown_serve wellFormed call).1
  rcases recorded.serve_cases call with ⟨next, performs, served⟩ | ⟨pool, served⟩
  · rw [served] at grows ⊢
    obtain ⟨code, appended, described⟩ := performs.describes wellFormed
    obtain ⟨opcode, operands, rfl, spelled⟩ :=
      AssemblyCall.spelledBy_of_describes (described next.pool (.refl _))
    let added : Instruction := ⟨recorded.assembler.code.toList.length, opcode, operands⟩
    refine ⟨instructions ++ [added], ?_, fun later beyond => ?_⟩
    · rw [appended, Array.toList_appendList]
      exact tiles.concat (spelled added.offset).1
    · -- The call is spelled by the same bytes in every later pool.
      obtain ⟨_, _, same, spelledLater⟩ :=
        AssemblyCall.spelledBy_of_describes (described later beyond)
      cases same
      rw [List.map_append, comeFrom later (grows.trans beyond), List.map_append, List.map_singleton,
        (spelledLater added.offset).2, List.map_singleton]
  · rw [served] at grows ⊢
    exact ⟨instructions, tiles, fun later beyond => comeFrom later (grows.trans beyond)⟩

theorem Disassembles.run (disassembles : recorded.Disassembles)
    (wellFormed : recorded.assembler.pool.WellFormed) (calls : List AssemblyCall) :
    (recorded.run calls).Disassembles := by
  induction calls generalizing recorded with
  | nil => exact disassembles
  | cons call calls ih =>
      exact ih (disassembles.serve wellFormed call) (grown_serve wellFormed call).2

/-- After any calls on any pool that can come about, the code lists without a failure as
one instruction for each call that succeeded, in their order, and each of them is taken
back to its call in the pool that there is in the end. A call that fails at this point
changes nothing but the pool. -/
theorem disassembly_run {pool : ConstantPool} (reachable : pool.Reachable)
    (calls : List AssemblyCall) :
    let last := (start pool).run calls
    let listing := Listing.ofCode last.assembler.code.toList
    listing.failure = none ∧
      listing.instructions.map (AssemblyCall.ofInstruction? last.assembler.pool) =
        last.accepted.map some ∧
      ∀ call fault next, AssemblyCall.perform call last.assembler = (.error fault, next) →
        next = { last.assembler with pool := next.pool } := by
  intro last listing
  obtain ⟨instructions, tiles, comeFrom⟩ :=
    (disassembles_start pool).run reachable.wellFormed calls
  have listed : listing = ⟨instructions, none⟩ := tiles.ofCode_eq
  rw [listed]
  exact ⟨rfl, comeFrom _ (.refl _), fun call fault next => AssemblyCall.eq_of_perform_eq_error⟩

/-- Calls of which three fail: there is no object to read a field of, a descriptor that
spells no type, and too few arguments. The last of them adds its reference before it
fails, and the call behind it finds the text there. -/
def mixedCalls : List AssemblyCall :=
  [.refer .getfield ⟨"java/lang/ProcessBuilder", "command", "Ljava/util/List;"⟩, .aload 3, .nop,
    .aload 300, .refer .getstatic ⟨"java/lang/System", "err", "Ljava/io/PrintStream"⟩,
    .refer .invokeinterface ⟨"java/util/Map", "get", "(Ljava/lang/Object;)Ljava/lang/Object;"⟩,
    .refer .invokestatic ⟨"java/lang/Math", "max", "(JJ)J"⟩, .ldc "max"]

theorem disassembly_run_mixedCalls :
    let last := (start .empty).run mixedCalls
    last.accepted = [.aload 3, .nop, .aload 300,
        .refer .invokeinterface ⟨"java/util/Map", "get", "(Ljava/lang/Object;)Ljava/lang/Object;"⟩,
        .ldc "max"] ∧
      (Listing.ofCode last.assembler.code.toList).instructions.map
        (AssemblyCall.ofInstruction? last.assembler.pool) = last.accepted.map some :=
  ⟨by decide +kernel, (disassembly_run .empty mixedCalls).2.1⟩

end RecordedAssembly

end Lookout
