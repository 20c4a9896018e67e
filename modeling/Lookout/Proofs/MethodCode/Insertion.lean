/-
# What inserting a prologue does to the code

An insertion that succeeds has spliced the fragment in front of code that is its
own continuation: the fragment is listed as it was, and the instructions of the
body follow it with nothing but their offsets raised. Branches are relative, so
their targets are raised by the same distance and keep leading to the
instructions that they led to.
-/

import Lookout.MethodCode.Prologue
import Lookout.Proofs.ConstantPool.Growth
import Lookout.Proofs.Instruction.Listing

namespace Lookout

namespace MethodCode

/-- The offsets into the code that exceptions and frames record after a move. -/
def movedReferences (exceptions : List ExceptionEntry) (moved : List MovedAttribute) :
    List OffsetReference :=
  exceptions.flatMap ExceptionEntry.references ++
    moved.flatMap fun item => item.frameOffsets.map fun offset => ⟨offset, offset⟩

/-- What an insertion checks, and what it then returns. -/
theorem insertPrologue_eq_ok_iff {body extended : MethodCode} {pool : ConstantPool}
    {fragment : Fragment} :
    body.insertPrologue pool fragment = .ok extended ↔
      fragment.length % 4 = 0 ∧ fragment.length + body.code.length ≤ maxCodeLength ∧
        ∃ exceptions moved,
          body.exceptions.mapM (ExceptionEntry.shifted (UInt16.ofNat fragment.length)) =
              .ok exceptions ∧
            body.attributes.mapM (moveAttribute pool (UInt16.ofNat fragment.length)) = .ok moved ∧
            checkLayout (fragment.code ++ body.code) (movedReferences exceptions moved) = .ok () ∧
            extended = {
              maxStack := max body.maxStack fragment.maxStack
              maxLocals := max body.maxLocals fragment.maxLocals
              code := fragment.code ++ body.code
              exceptions
              attributes := moved.filterMap MovedAttribute.kept } := by
  unfold insertPrologue
  by_cases aligned : fragment.length % 4 = 0
  case neg =>
    simp only [ne_eq, aligned, not_false_eq_true, if_true, false_and, iff_false]
    intro impossible
    cases impossible
  by_cases short : fragment.length + body.code.length ≤ maxCodeLength
  case neg =>
    simp only [ne_eq, aligned, not_true_eq_false, if_false, Nat.not_le.mp short, if_true, short,
      false_and, and_false, iff_false]
    intro impossible
    cases impossible
  simp only [ne_eq, aligned, not_true_eq_false, if_false, Nat.not_lt.mpr short, short, true_and]
  constructor
  · intro success
    obtain ⟨exceptions, exceptionsMoved, success⟩ := bindExcept_eq_ok_iff.mp success
    obtain ⟨moved, attributesMoved, success⟩ := bindExcept_eq_ok_iff.mp success
    obtain ⟨⟨⟩, laidOut, success⟩ := bindExcept_eq_ok_iff.mp success
    cases success
    exact ⟨exceptions, moved, exceptionsMoved, attributesMoved, laidOut, rfl⟩
  · rintro ⟨exceptions, moved, exceptionsMoved, attributesMoved, laidOut, rfl⟩
    refine bindExcept_eq_ok_iff.mpr ⟨exceptions, exceptionsMoved, ?_⟩
    refine bindExcept_eq_ok_iff.mpr ⟨moved, attributesMoved, ?_⟩
    exact bindExcept_eq_ok_iff.mpr ⟨(), laidOut, rfl⟩

/-- All names of attributes of the code are entries of the pool. -/
def NamesInside (pool : ConstantPool) (body : MethodCode) : Prop :=
  ∀ item ∈ body.attributes, item.nameIndex.toNat < pool.count

instance (pool : ConstantPool) (body : MethodCode) : Decidable (body.NamesInside pool) :=
  inferInstanceAs (Decidable (∀ item ∈ body.attributes, item.nameIndex.toNat < pool.count))

/-- An insertion asks the pool for nothing but the names of attributes. -/
theorem insertPrologue_eq_of_grows {body : MethodCode} {earlier later : ConstantPool}
    (grows : earlier.GrowsTo later) (inside : body.NamesInside earlier) (fragment : Fragment) :
    body.insertPrologue later fragment = body.insertPrologue earlier fragment := by
  have sameMoves (distance : UInt16) : body.attributes.mapM (moveAttribute later distance) =
      body.attributes.mapM (moveAttribute earlier distance) :=
    mapExcept_congr fun item there => by
      rw [moveAttribute, moveAttribute, grows.utf8_eq (inside item there)]
  simp only [insertPrologue, sameMoves]

/-- An insertion leaves the instructions of the body and their control flow alone. The
fragment is listed as on its own. Every instruction of the body is listed behind it,
moved on, and what it branches to is what it branched to before, moved on as well: no
branch of the body leads into the fragment. -/
theorem insertPrologue_keeps_flow {body extended : MethodCode} {pool : ConstantPool}
    {fragment : Fragment} (decodes : (Listing.ofCode fragment.code).failure = none)
    (laidOut : checkLayout body.code [] = .ok ())
    (inserted : body.insertPrologue pool fragment = .ok extended) :
    Listing.ofCode extended.code =
        ⟨(Listing.ofCode fragment.code).instructions ++
          (Listing.ofCode body.code).instructions.map (Instruction.shifted fragment.length), none⟩ ∧
      ∀ instruction ∈ (Listing.ofCode body.code).instructions,
        (instruction.shifted fragment.length).targetsIn extended.code =
            (instruction.targetsIn body.code).map (· + (fragment.length : Int)) ∧
          ∀ target ∈ instruction.targetsIn body.code,
            ∃ landing ∈ (Listing.ofCode body.code).instructions,
              (landing.offset : Int) = target ∧
                landing.shifted fragment.length ∈ (Listing.ofCode extended.code).instructions ∧
                Instruction.decode extended.code (landing.offset + fragment.length) =
                  .ok (landing.shifted fragment.length) := by
  obtain ⟨aligned, -, exceptions, moved, -, -, -, rfl⟩ := insertPrologue_eq_ok_iff.mp inserted
  obtain ⟨complete, branchesLand, -⟩ := checkLayout_eq_ok_iff.mp laidOut
  have front := Listing.tiles_ofCode decodes
  have back := Listing.tiles_ofCode complete
  have spliced := front.append_shifted aligned back
  have listed := spliced.ofCode_eq
  refine ⟨listed, fun instruction member => ?_⟩
  have movedMember {instruction : Instruction}
      (member : instruction ∈ (Listing.ofCode body.code).instructions) :
      instruction.shifted fragment.length ∈ (Listing.ofCode fragment.code).instructions ++
        (Listing.ofCode body.code).instructions.map (Instruction.shifted fragment.length) :=
    List.mem_append_right _ (List.mem_map_of_mem member)
  have targets : instruction.targetsIn body.code = instruction.targets :=
    Instruction.targetsIn_eq back member
  constructor
  · rw [Instruction.targetsIn_eq spliced (movedMember member), targets]
    exact instruction.targets_shifted aligned
  · intro target branchesTo
    rw [targets] at branchesTo
    obtain ⟨landing, there, rfl⟩ := branchesLand instruction member target branchesTo
    refine ⟨landing, there, rfl, ?_, spliced.decode_eq_ok (movedMember there)⟩
    rw [listed]
    exact movedMember there

/-- A method with a table switch at 1 that always leads to the `return` at 20. -/
def switchSample : MethodCode :=
  plain 1 1 [Opcode.aload0, Opcode.tableswitch, 0, 0, 0, 0, 0, 19, 0, 0, 0, 5, 0, 0, 0, 5,
    0, 0, 0, 19, Opcode.returnVoid]

/-- The table switch of that method. -/
def sampleSwitch : Instruction where
  offset := 1
  opcode := Opcode.tableswitch
  operands := (switchSample.code.drop 2).take 18

/-- Four bytes of code that do nothing. -/
def fourNops : Fragment := ⟨List.replicate 4 Opcode.nop, 0, 0⟩

/-- Behind four bytes the table switch stands at 5 and leads to 24. -/
theorem insertPrologue_keeps_flow_of_switch :
    switchSample.insertPrologue ConstantPool.empty fourNops =
        .ok { switchSample with code := fourNops.code ++ switchSample.code } ∧
      (sampleSwitch.shifted 4).targetsIn (fourNops.code ++ switchSample.code) = [24, 24] := by
  have decodes : (Listing.ofCode fourNops.code).failure = none := by decide +kernel
  have laidOut : checkLayout switchSample.code [] = .ok () :=
    eq_ok_of_toOption (by decide +kernel)
  have inserted : switchSample.insertPrologue ConstantPool.empty fourNops =
      .ok { switchSample with code := fourNops.code ++ switchSample.code } :=
    eq_ok_of_toOption (by decide +kernel)
  have listed : sampleSwitch ∈ (Listing.ofCode switchSample.code).instructions := by
    decide +kernel
  have flow := insertPrologue_keeps_flow decodes laidOut inserted
  have before : sampleSwitch.targetsIn switchSample.code = [20, 20] := by decide +kernel
  refine ⟨inserted, (flow.2 sampleSwitch listed).1.trans ?_⟩
  rw [before]
  rfl

end MethodCode

end Lookout
