/-
# Reports as rows of calls

A report is assembled by a fixed row of calls, whatever is in the pool and whichever class
it is for; only the class that declares the command enters into it. So the fragment that
comes of it lists as one instruction for each of these calls, with the padding behind them,
and however the pool grows, each instruction is taken back to its call. The report of a
launch reads one field of an object: that of the command, from the object whose method it
is put into.
-/

import Lookout.Proofs.Fragment.Disassembly
import Lookout.Proofs.Instrumentation.DiagnosticPrologue

namespace Lookout

namespace AssemblyCall

variable {pool : ConstantPool} {instruction : Instruction}

/-- What the instruction must be for the call to be what it is taken back to. -/
def Encoded (pool : ConstantPool) (instruction : Instruction) : AssemblyCall → Prop
  | .nop => instruction.opcode = Opcode.nop
  | .aload index =>
    (Opcode.aload0 ≤ instruction.opcode ∧ instruction.opcode ≤ Opcode.aload0 + 3 ∧
        index = (instruction.opcode - Opcode.aload0).toUInt16) ∨
      (instruction.opcode = Opcode.aload ∨ instruction.opcode = Opcode.wide) ∧ 3 < index
  | .ldc _ => instruction.opcode = Opcode.ldc ∨ instruction.opcode = Opcode.ldcW
  | .refer use member =>
    instruction.opcode = use.opcode ∧ Rehearsal.operandMember? pool instruction = some member

theorem encoded_of_ofInstruction? {call : AssemblyCall}
    (comes : ofInstruction? pool instruction = some call) : Encoded pool instruction call := by
  unfold ofInstruction? at comes
  dsimp only at comes
  split at comes
  case isTrue isNop =>
    cases comes
    exact isNop
  split at comes
  case isTrue isFirst =>
    cases comes
    exact .inl ⟨isFirst.1, isFirst.2, rfl⟩
  split at comes
  case isTrue isAload =>
    obtain ⟨index, -, comes⟩ := Option.bind_eq_some_iff.mp comes
    split at comes
    case isTrue => cases comes
    case isFalse notFirst =>
      cases comes
      refine .inr ⟨.inl isAload, ?_⟩
      rw [UInt8.le_iff_toNat_le] at notFirst
      rw [UInt16.lt_iff_toNat_lt]
      simpa using notFirst
  split at comes
  case isTrue isWide =>
    obtain ⟨index, -, comes⟩ := Option.bind_eq_some_iff.mp comes
    split at comes
    case isTrue => cases comes
    case isFalse notShort =>
      cases comes
      refine .inr ⟨.inr isWide, ?_⟩
      obtain ⟨-, long⟩ := not_or.mp notShort
      rw [UInt16.le_iff_toNat_le] at long
      rw [UInt16.lt_iff_toNat_lt]
      simp at long ⊢
      omega
  split at comes
  case isTrue isLdc =>
    obtain ⟨_, -, comes⟩ := Option.bind_eq_some_iff.mp comes
    obtain ⟨_, -, comes⟩ := Option.bind_eq_some_iff.mp comes
    cases comes
    exact .inl isLdc
  split at comes
  case isTrue isLdcW =>
    obtain ⟨_, -, comes⟩ := Option.bind_eq_some_iff.mp comes
    obtain ⟨_, -, comes⟩ := Option.bind_eq_some_iff.mp comes
    split at comes
    · cases comes
    · cases comes
      exact .inr isLdcW
  obtain ⟨use, used, comes⟩ := Option.bind_eq_some_iff.mp comes
  obtain ⟨member, found, comes⟩ := Option.bind_eq_some_iff.mp comes
  cases comes
  rw [MemberUse.ofOpcode?] at used
  have sameOpcode := List.find?_some used
  exact ⟨(beq_iff_eq.mp sameOpcode).symm, found⟩

/-- Where instructions are taken back to a row of calls, each of them is what one of the calls
needs. -/
theorem exists_encoded_of_mem {instructions : List Instruction} {calls : List AssemblyCall}
    (comeFrom : instructions.map (ofInstruction? pool) = calls.map some)
    (member : instruction ∈ instructions) : ∃ call ∈ calls, Encoded pool instruction call := by
  have comes := List.mem_map_of_mem (f := ofInstruction? pool) member
  rw [comeFrom] at comes
  obtain ⟨call, called, comes⟩ := List.mem_map.mp comes
  exact ⟨call, called, encoded_of_ofInstruction? comes.symm⟩

/-- Only the opcode that has no operand pushes the first local variable. -/
theorem Encoded.aload0 (encoded : Encoded pool instruction (.aload 0)) :
    instruction.opcode = Opcode.aload0 := by
  rcases encoded with ⟨atLeast, atMost, same⟩ | ⟨-, notFirst⟩
  · rw [UInt8.le_iff_toNat_le] at atLeast atMost
    have offset := congrArg UInt16.toNat same
    have behind := UInt8.toNat_sub_of_le _ _ (UInt8.le_iff_toNat_le.mpr atLeast)
    rw [UInt8.toNat_toUInt16, behind] at offset
    rw [← UInt8.toNat_inj]
    have : (0 : UInt16).toNat = 0 := rfl
    omega
  · exact absurd notFirst (by decide)

/-- Whether the call reads a field of an object. -/
def readsField : AssemblyCall → Bool
  | .refer .getfield _ => true
  | _ => false

theorem Encoded.readsField {call : AssemblyCall} (encoded : Encoded pool instruction call)
    (reads : instruction.opcode = Opcode.getfield) : call.readsField = true := by
  cases call with
  | nop => exact absurd (reads.symm.trans encoded) (by decide)
  | aload index =>
      rcases encoded with ⟨-, atMost, -⟩ | ⟨isAload | isWide, -⟩
      · rw [reads] at atMost
        exact absurd atMost (by decide)
      · exact absurd (reads.symm.trans isAload) (by decide)
      · exact absurd (reads.symm.trans isWide) (by decide)
  | ldc text =>
      rcases encoded with isLdc | isLdcW
      · exact absurd (reads.symm.trans isLdc) (by decide)
      · exact absurd (reads.symm.trans isLdcW) (by decide)
  | refer use member =>
      have opcode := reads.symm.trans encoded.1
      cases use with
      | getfield => rfl
      | getstatic | invokestatic | invokevirtual | invokeinterface =>
          exact absurd opcode (by decide)

/-- Padding lists as instructions that do nothing. -/
theorem exists_tiles_nops (offset count : Nat) :
    ∃ instructions, Listing.Tiles offset (List.replicate count Opcode.nop) instructions ∧
      ∀ pool, instructions.map (ofInstruction? pool) = (List.replicate count nop).map some := by
  induction count generalizing offset with
  | zero => exact ⟨[], .nil offset, fun _ => rfl⟩
  | succ count ih =>
      let first : Instruction := ⟨offset, Opcode.nop, []⟩
      obtain ⟨later, tiles, comeFrom⟩ := ih (first.offset + first.length)
      refine ⟨first :: later, ?_, fun pool => ?_⟩
      · exact .cons (Instruction.isWhole_of_fixedLength offset rfl) tiles
      · rw [List.map_cons, comeFrom pool]
        rfl

end AssemblyCall

namespace RecordedAssembly

open Effect

/-- Calls that succeed one after the other are all recorded. -/
theorem run_of_forM {recorded : RecordedAssembly} {calls : List AssemblyCall} {next : Assembler}
    (success : calls.forM AssemblyCall.perform recorded.assembler = (.ok (), next)) :
    recorded.run calls = ⟨next, recorded.accepted ++ calls⟩ := by
  induction calls generalizing recorded with
  | nil =>
      cases success
      rw [List.append_nil]
      rfl
  | cons call calls ih =>
      obtain ⟨_, between, first, later⟩ := bind_eq_ok_iff.mp success
      have served : recorded.serve call = ⟨between, recorded.accepted ++ [call]⟩ := by
        rw [serve, first]
      have after := @ih (recorded.serve call)
      rw [served] at after
      rw [run_cons, served, after later, List.append_assoc, List.singleton_append]

end RecordedAssembly

namespace DiagnosticPrologue

/-- Push the name of the running thread. -/
def threadNameCalls : List AssemblyCall :=
  [.refer .invokestatic currentThread, .refer .invokevirtual getName]

/-- Print the line on the stack, and then the call stack. -/
def printAndDumpCalls : List AssemblyCall :=
  [.refer .invokevirtual println, .refer .invokestatic dumpStack]

/-- Report that the process ends. -/
def haltCalls : List AssemblyCall :=
  [.refer .getstatic errorStream,
    .ldc (Diagnostic.eventDescription .halt ++ Diagnostic.threadNameLabel)] ++
    threadNameCalls ++ [.refer .invokevirtual concat] ++ printAndDumpCalls

/-- The front of a launch report, up to where the command is read. -/
def beforeCommandCalls : List AssemblyCall :=
  [.refer .getstatic errorStream, .ldc (Diagnostic.eventDescription .processStart),
    .ldc Diagnostic.argumentSeparator]

/-- The rest of a launch report, once the command is read. -/
def afterCommandCalls : List AssemblyCall :=
  [.refer .invokestatic join, .refer .invokevirtual concat, .ldc Diagnostic.threadNameLabel,
    .refer .invokevirtual concat] ++
    threadNameCalls ++ [.refer .invokevirtual concat] ++ printAndDumpCalls

/-- The calls that assemble the report of a class with this name. -/
def calls : TargetKind → String → List AssemblyCall
  | .halt, _ => haltCalls
  | .processStart, owner =>
    beforeCommandCalls ++ .aload 0 :: .refer .getfield (commandField owner) :: afterCommandCalls

theorem code_eq_forM (kind : TargetKind) (owner : String) :
    code kind owner = (calls kind owner).forM AssemblyCall.perform := by
  cases kind with
  | halt =>
      simp [code, haltCode, threadName, printAndDump, calls, haltCalls, threadNameCalls,
        printAndDumpCalls, AssemblyCall.perform]
  | processStart =>
      simp [code, processStartCode, threadName, printAndDump, calls, beforeCommandCalls,
        afterCommandCalls, threadNameCalls, printAndDumpCalls, AssemblyCall.perform]

/-- The fragment lists without a failure as one instruction for each call and at most three
that do nothing behind them. -/
def ReadsAs (pool : ConstantPool) (fragment : Fragment) (calls : List AssemblyCall) : Prop :=
  ∃ instructions padding, Listing.ofCode fragment.code = ⟨instructions, none⟩ ∧ padding < 4 ∧
    instructions.map (AssemblyCall.ofInstruction? pool) =
      (calls ++ List.replicate padding AssemblyCall.nop).map some

/-- The fragment that comes of a report reads as the calls of the report, and goes on doing so
however the pool grows. -/
theorem readsAs_of_assemble {kind : TargetKind} {owner : String} {pool last : ConstantPool}
    {fragment : Fragment} (wellFormed : pool.WellFormed)
    (assembled : assemble kind owner pool = (.ok fragment, last)) :
    ∀ later, last.GrowsTo later → ReadsAs later fragment (calls kind owner) := by
  obtain ⟨assembler, emits, finished, rfl⟩ := assemble_eq_ok_iff.mp assembled
  obtain ⟨-, rfl⟩ := Assembler.finish_eq_ok_iff.mp finished
  rw [code_eq_forM] at emits
  have recorded : (RecordedAssembly.start pool).run (calls kind owner) = _ :=
    RecordedAssembly.run_of_forM emits
  have disassembles := (RecordedAssembly.disassembles_start pool).run wellFormed (calls kind owner)
  rw [recorded] at disassembles
  obtain ⟨instructions, tiles, comeFrom⟩ := disassembles
  obtain ⟨nops, tilesNops, comeFromNops⟩ :=
    AssemblyCall.exists_tiles_nops (0 + assembler.code.toList.length) assembler.padding
  intro later grows
  refine ⟨instructions ++ nops, assembler.padding, (tiles.append tilesNops).ofCode_eq,
    assembler.padding_lt, ?_⟩
  have accepted : (RecordedAssembly.start pool).accepted ++ calls kind owner =
    calls kind owner := List.nil_append _
  rw [List.map_append, comeFrom later grows, comeFromNops later, accepted, ← List.map_append]

/-- The fragment reads one field of an object, which is the command as declared by the class
with this name, and the object is what is in the first local variable. -/
def ReadsCommand (pool : ConstantPool) (owner : String) (fragment : Fragment) : Prop :=
  ∃ front receiver reading back,
    Listing.ofCode fragment.code = ⟨front ++ receiver :: reading :: back, none⟩ ∧
      receiver.opcode = Opcode.aload0 ∧ reading.opcode = Opcode.getfield ∧
      Rehearsal.operandMember? pool reading = some (commandField owner) ∧
      ∀ other ∈ front ++ receiver :: back, other.opcode ≠ Opcode.getfield

theorem readsCommand_of_readsAs {pool : ConstantPool} {owner : String} {fragment : Fragment}
    (readsAs : ReadsAs pool fragment (calls .processStart owner)) :
    ReadsCommand pool owner fragment := by
  obtain ⟨instructions, padding, listed, -, comeFrom⟩ := readsAs
  have encoded {instruction : Instruction} {call : AssemblyCall}
      (comes : AssemblyCall.ofInstruction? pool instruction = some call) :=
    AssemblyCall.encoded_of_ofInstruction? comes
  rw [calls, List.append_assoc, List.map_append, List.map_eq_append_iff] at comeFrom
  obtain ⟨front, rest, rfl, frontComes, restComes⟩ := comeFrom
  simp only [List.cons_append, List.map_cons] at restComes
  obtain ⟨receiver, rest, rfl, receiverComes, restComes⟩ := List.map_eq_cons_iff.mp restComes
  obtain ⟨reading, back, rfl, readingComes, backComes⟩ := List.map_eq_cons_iff.mp restComes
  obtain ⟨opcode, leads⟩ := encoded readingComes
  refine ⟨front, receiver, reading, back, listed, (encoded receiverComes).aload0, opcode, leads, ?_⟩
  -- The other instructions come from the other calls, none of which reads a field.
  have othersCome : (front ++ receiver :: back).map (AssemblyCall.ofInstruction? pool) =
      (beforeCommandCalls ++ AssemblyCall.aload 0 ::
        (afterCommandCalls ++ List.replicate padding AssemblyCall.nop)).map some := by
    simp only [List.map_append, List.map_cons, frontComes, receiverComes, backComes]
  have fixed : ∀ call ∈ beforeCommandCalls ++ AssemblyCall.aload 0 :: afterCommandCalls,
      call.readsField = false := by
    decide
  intro other member reads
  obtain ⟨call, called, encodedOther⟩ := AssemblyCall.exists_encoded_of_mem othersCome member
  have readsField := encodedOther.readsField reads
  have notReads : call.readsField = false := by
    rw [← List.cons_append, ← List.append_assoc] at called
    rcases List.mem_append.mp called with isFixed | isPadding
    · exact fixed call isFixed
    · rw [List.eq_of_mem_replicate isPadding]
      rfl
  rw [notReads] at readsField
  cases readsField

end DiagnosticPrologue

end Lookout
