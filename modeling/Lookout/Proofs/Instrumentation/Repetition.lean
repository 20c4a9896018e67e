/-
# Building a report again

A report is built from constants that are found in the pool or added to it, so building it
adds constants and does nothing else to a class. The class that comes of it has all of them:
a second report finds each at the index where the first one found or put it, and is the same
to the byte. The instructions of a report push constants, read fields and call methods. None
of them stores anything or leads away from the next one, and the only local variable that is
ever read is the first.
-/

import Lookout.Proofs.ConstantPool.Reachable
import Lookout.Proofs.ConstantPool.Room
import Lookout.Proofs.Effect
import Lookout.Proofs.Instrumentation.Change
import Lookout.Proofs.Instrumentation.ReportCalls

namespace Lookout

/-! ### Instructions that do no harm -/

namespace Opcode

/-- Whether the instruction stores a value in a local variable, an array or a field. -/
def isStore (opcode : UInt8) : Bool :=
  (0x36 ≤ opcode && opcode ≤ 0x56) || opcode == iinc || opcode == 0xB3 || opcode == 0xB5

/-- Whether the instruction may go on elsewhere in the code. -/
def isBranch (opcode : UInt8) : Bool :=
  isShortBranch opcode || isLongBranch opcode || opcode == tableswitch ||
    opcode == lookupswitch || opcode == ret

/-- Whether the instruction leaves the method, by returning or by throwing. -/
def isExit (opcode : UInt8) : Bool :=
  (0xAC ≤ opcode && opcode ≤ 0xB1) || opcode == athrow

/-- Whether the instruction reads the local variable that its operand names. -/
def readsNamedLocal (opcode : UInt8) : Bool :=
  (0x15 ≤ opcode && opcode ≤ 0x19) || opcode == iinc || opcode == ret

/-- The local variables that hold the value with this index: longs and doubles take two. -/
def slotsOfLocal (opcode : UInt8) (index : Nat) : List Nat :=
  if opcode = 0x16 ∨ opcode = 0x18 then [index, index + 1] else [index]

end Opcode

namespace Instruction

/-- The local variables that the instruction reads. The index is part of the opcode, or it is
the operand, which takes two bytes behind `wide`. -/
def localsRead (instruction : Instruction) : List Nat :=
  let opcode := instruction.opcode
  if 0x1A ≤ opcode ∧ opcode ≤ 0x2D then
    -- There are four opcodes for each of the five opcodes that have an operand.
    let code := opcode - 0x1A
    Opcode.slotsOfLocal (0x15 + code / 4) (code % 4).toNat
  else if Opcode.readsNamedLocal opcode then
    instruction.operands.head?.toList.flatMap fun index => Opcode.slotsOfLocal opcode index.toNat
  else if opcode = Opcode.wide then
    match instruction.operands with
    | widened :: index =>
      if Opcode.readsNamedLocal widened then
        (Bytes.word16? index).toList.flatMap fun index => Opcode.slotsOfLocal widened index.toNat
      else []
    | [] => []
  else []

/-- The instruction stores nothing, goes on to the next one, and reads no local variable but
the first. -/
structure Harmless (instruction : Instruction) : Prop where
  noStore : Opcode.isStore instruction.opcode = false
  noBranch : Opcode.isBranch instruction.opcode = false
  noTargets : instruction.targets = []
  noExit : Opcode.isExit instruction.opcode = false
  locals : ∀ slot ∈ instruction.localsRead, slot = 0

end Instruction

namespace DiagnosticPrologue

/-- All opcodes of reports. -/
def reportOpcodes : List UInt8 :=
  [Opcode.nop, Opcode.ldc, Opcode.ldcW, Opcode.aload0, Opcode.getstatic, Opcode.getfield,
    Opcode.invokestatic, Opcode.invokevirtual]

theorem harmless_of_mem {instruction : Instruction} (reports : instruction.opcode ∈ reportOpcodes) :
    instruction.Harmless := by
  obtain ⟨offset, opcode, operands⟩ := instruction
  simp only [reportOpcodes, List.mem_cons, List.not_mem_nil, or_false] at reports
  rcases reports with rfl | rfl | rfl | rfl | rfl | rfl | rfl | rfl
  case inr.inr.inr.inl =>
    have onlyFirst : (Instruction.mk offset Opcode.aload0 operands).localsRead = [0] := by
      simp [Instruction.localsRead, Opcode.aload0, Opcode.slotsOfLocal]
    refine ⟨rfl, rfl, rfl, rfl, fun slot read => ?_⟩
    rw [onlyFirst] at read
    exact List.mem_singleton.mp read
  all_goals exact ⟨rfl, rfl, rfl, rfl, fun slot read => by cases read⟩

end DiagnosticPrologue

/-! ### The calls of a report -/

namespace AssemblyCall

open DiagnosticPrologue (reportOpcodes)

/-- Whether a report may make the call: it does not call a method of an interface, and of the
local variables it pushes only the first. -/
def isReporting : AssemblyCall → Bool
  | .nop | .ldc _ => true
  | .aload index => index == 0
  | .refer use _ => use != .invokeinterface

theorem Encoded.opcode_mem {pool : ConstantPool} {instruction : Instruction} {call : AssemblyCall}
    (encoded : Encoded pool instruction call) (reporting : call.isReporting = true) :
    instruction.opcode ∈ reportOpcodes := by
  cases call with
  | nop =>
      rw [show instruction.opcode = Opcode.nop from encoded]
      decide
  | aload index =>
      obtain rfl : index = 0 := beq_iff_eq.mp reporting
      rw [encoded.aload0]
      decide
  | ldc text =>
      rcases encoded with isLdc | isLdcW
      · rw [isLdc]
        decide
      · rw [isLdcW]
        decide
  | refer use member =>
      rw [encoded.1]
      cases use with
      | invokeinterface => cases reporting
      | getstatic | getfield | invokestatic | invokevirtual => decide

end AssemblyCall

namespace DiagnosticPrologue

theorem isReporting_of_mem_calls {kind : TargetKind} {owner : String} {call : AssemblyCall}
    (called : call ∈ calls kind owner) : call.isReporting = true := by
  have all : (calls kind owner).all AssemblyCall.isReporting = true := by
    cases kind <;> rfl
  exact List.all_eq_true.mp all call called

/-- Code that reads as a report has the opcodes of reports only. -/
theorem opcode_mem_of_readsAs {pool : ConstantPool} {fragment : Fragment} {kind : TargetKind}
    {owner : String} (readsAs : ReadsAs pool fragment (calls kind owner)) :
    ∃ instructions, Listing.ofCode fragment.code = ⟨instructions, none⟩ ∧
      ∀ instruction ∈ instructions, instruction.opcode ∈ reportOpcodes := by
  obtain ⟨instructions, padding, listed, -, comeFrom⟩ := readsAs
  refine ⟨instructions, listed, fun instruction member => ?_⟩
  obtain ⟨call, called, encoded⟩ := AssemblyCall.exists_encoded_of_mem comeFrom member
  refine encoded.opcode_mem ?_
  rcases List.mem_append.mp called with ofReport | isPadding
  · exact isReporting_of_mem_calls ofReport
  · rw [List.eq_of_mem_replicate isPadding]
    rfl

/-! ### Building twice -/

/-- A class still has the command after its pool has grown. -/
theorem lacksCommandField_of_grows {kind : TargetKind} {file : ClassFile} {pool : ConstantPool}
    (grows : file.pool.GrowsTo pool) (declares : lacksCommandField kind file = false) :
    lacksCommandField kind { file with pool } = false := by
  have evolves : file.EvolvesTo { file with pool } :=
    ⟨grows, rfl, rfl, fun there => ⟨_, there, .of_grows grows _⟩⟩
  cases kind with
  | halt => rfl
  | processStart =>
      cases found : file.findField? commandFieldName commandFieldDescriptor with
      | none =>
          rw [lacksCommandField, found] at declares
          cases declares
      | some index =>
          rw [lacksCommandField, evolves.findField?_eq_some found]
          rfl

variable {kind : TargetKind} {method : String} {file next : ClassFile} {fragment : Fragment}

/-- What is built is built again from the class that comes of it, for any of its methods. -/
theorem build_again (built : build kind method file = (.ok fragment, next)) (other : String) :
    build kind other next = (.ok fragment, next) := by
  obtain ⟨owner, pool, named, declares, assembled, rfl⟩ := build_eq_ok_iff.mp built
  have settles := settles_assemble kind owner
  have grows : file.pool.GrowsTo pool := settles.grows assembled
  exact build_eq_ok_iff.mpr ⟨owner, pool, grows.className named,
    lacksCommandField_of_grows grows declares, settles.again assembled (.refl pool), rfl⟩

/-- Building a report adds constants to the pool of the class and changes nothing else in it.
Building one of that kind again, for whichever method, comes to the same fragment and changes
nothing at all. The fragment decodes from end to end to instructions of eight opcodes, which
store nothing, do not branch, return or throw, and read no local variable but the first. -/
theorem harmless_of_build (reachable : file.pool.Reachable)
    (built : build kind method file = (.ok fragment, next)) :
    (∀ other, build kind other next = (.ok fragment, next)) ∧
      file.pool.GrowsTo next.pool ∧ next = { file with pool := next.pool } ∧
      ∃ instructions, Listing.ofCode fragment.code = ⟨instructions, none⟩ ∧
        ∀ instruction ∈ instructions,
          instruction.opcode ∈ reportOpcodes ∧ instruction.Harmless := by
  obtain ⟨owner, pool, named, declares, assembled, rfl⟩ := build_eq_ok_iff.mp built
  obtain ⟨instructions, listed, opcodes⟩ :=
    opcode_mem_of_readsAs (readsAs_of_assemble reachable.wellFormed assembled pool (.refl pool))
  have grows : file.pool.GrowsTo pool := (settles_assemble kind owner).grows assembled
  exact ⟨build_again built, grows, rfl, instructions, listed,
    fun instruction member => ⟨opcodes _ member, harmless_of_mem (opcodes _ member)⟩⟩

/-- The constants of a class that spells its name `A` with two bytes, where the prescribed
encoding takes one, and that has the name of its field twice. -/
def overlongConstants : List Constant :=
  [.utf8 [0xC1, 0x81], .classInfo 1, .utf8 (Text.ModifiedUtf8.encode commandFieldName),
    .utf8 (Text.ModifiedUtf8.encode commandFieldName),
    .utf8 (Text.ModifiedUtf8.encode commandFieldDescriptor)]

/-- That class, whose field is called by the second of the two. -/
def overlongSample : ClassFile where
  minorVersion := 0
  majorVersion := 52
  pool := ⟨(none :: ConstantPool.slotsOfAll overlongConstants).toArray⟩
  access := Access.publicFlag
  thisClass := 2
  superClass := 0
  interfaces := []
  fields := [⟨0, 4, 5, []⟩]
  methods := []
  attributes := []

theorem reachable_overlongSample : overlongSample.pool.Reachable := by
  have laidOut : overlongSample.pool.slots.toList =
      none :: ConstantPool.slotsOfAll overlongConstants := rfl
  have nameFits : Text.Fits commandFieldName := by decide
  have descriptorFits : Text.Fits commandFieldDescriptor := by decide
  have constantsFit : ∀ constant ∈ overlongConstants, constant.Fits := by
    have overlongFits : (Constant.utf8 [0xC1, 0x81]).Fits := (by decide : 2 < 65536)
    simp only [overlongConstants, List.forall_mem_cons]
    exact ⟨overlongFits, trivial, nameFits, nameFits, descriptorFits, nofun⟩
  have sound : overlongSample.pool.Sound :=
    ⟨⟨⟨_, laidOut⟩, by decide⟩, (ConstantPool.textsFit_iff laidOut).mpr constantsFit⟩
  exact sound.reachable

/-- The report of that class comes with a second spelling of its name. When it is built for
another method, it is the same, and nothing is added to the class. -/
theorem harmless_of_build_overlongSample :
    overlongSample.pool.Reachable ∧ overlongSample.name = .ok "A" ∧
      ∃ fragment next, build .processStart "start" overlongSample = (.ok fragment, next) ∧
        build .processStart "run" next = (.ok fragment, next) ∧
        next.pool.Spells "A" ∧
        ∀ instruction ∈ (Listing.ofCode fragment.code).instructions, instruction.Harmless := by
  have name : overlongSample.name = .ok "A" := by decide +kernel
  have builds : ∃ fragment, (build .processStart "start" overlongSample).1 = .ok fragment ∧
      (build .processStart "start" overlongSample).2.pool.Spells "A" := by
    decide +kernel
  generalize built : build .processStart "start" overlongSample = result at builds
  obtain ⟨outcome, next⟩ := result
  obtain ⟨fragment, rfl, spells⟩ := builds
  obtain ⟨again, -, -, instructions, listed, harmless⟩ :=
    harmless_of_build reachable_overlongSample built
  refine ⟨reachable_overlongSample, name, fragment, next, rfl, again "run", spells, ?_⟩
  rw [listed]
  exact fun instruction member => (harmless instruction member).2

end DiagnosticPrologue

end Lookout
