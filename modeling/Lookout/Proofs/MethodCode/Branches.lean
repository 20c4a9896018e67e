/-
# Which branches of a body enter the prologue

An insertion checks the spliced code, and there an offset in front of the body is
the offset of a fragment byte. So a branch that leads to before the first
instruction of a body, which is wrong on its own, may come to lead to an
instruction of the fragment. These are the only branches that enter the fragment,
and the only wrong ones that an insertion lets pass.
-/

import Lookout.Proofs.MethodCode.Insertion

namespace Lookout

namespace MethodCode

variable {body extended : MethodCode} {pool : ConstantPool} {fragment : Fragment}

/-- Whether no instruction at this offset of the code or behind it branches to before it. -/
def BranchesStayBehind (code : Bytes) (start : Nat) : Prop :=
  ∀ instruction ∈ (Listing.ofCode code).instructions, start ≤ instruction.offset →
    ∀ target ∈ instruction.targetsIn code, (start : Int) ≤ target

instance (code : Bytes) (start : Nat) : Decidable (BranchesStayBehind code start) :=
  inferInstanceAs (Decidable (∀ instruction ∈ (Listing.ofCode code).instructions,
    start ≤ instruction.offset → ∀ target ∈ instruction.targetsIn code, (start : Int) ≤ target))

/-- Spliced code that decodes from end to end is the fragment and a body that decodes on
its own. -/
theorem tiles_of_spliced {front back : Bytes} (aligned : front.length % 4 = 0)
    (decodes : (Listing.ofCode front).failure = none)
    (complete : (Listing.ofCode (front ++ back)).failure = none) :
    Listing.Tiles 0 front (Listing.ofCode front).instructions ∧
      Listing.Tiles 0 back (Listing.ofCode back).instructions := by
  have tilesFront := Listing.tiles_ofCode decodes
  have goesOn := tilesFront.startingAt_append back
  have completeBack : (Listing.startingAt (0 + front.length) back).failure = none := by
    rw [← complete, Listing.ofCode, ← Listing.startingAt, goesOn]
  obtain ⟨instructions, tilesBack⟩ :=
    (Listing.tiles_of_failure completeBack).exists_of_shifted aligned
  refine ⟨tilesFront, ?_⟩
  rw [tilesBack.ofCode_eq]
  exact tilesBack

/-- An instruction of spliced code that stands behind the fragment is one of the body, moved
on. What stands in the fragment has an offset below its length. -/
theorem exists_original_of_spliced {instructions originals : List Instruction}
    {instruction : Instruction} (front : Listing.Tiles 0 fragment.code instructions)
    (member : instruction ∈ instructions ++ originals.map (Instruction.shifted fragment.length))
    (behind : fragment.length ≤ instruction.offset) :
    ∃ original ∈ originals, original.shifted fragment.length = instruction := by
  rcases List.mem_append.mp member with inFragment | inBody
  · have before := front.offset_lt inFragment
    rw [Fragment.length] at behind
    omega
  · exact List.mem_map.mp inBody

/-- Of a body that was accepted, the branches stay out of the fragment exactly if the body
is well laid out on its own. -/
theorem checkLayout_iff_branchesStayBehind
    (decodes : (Listing.ofCode fragment.code).failure = none)
    (inserted : body.insertPrologue pool fragment = .ok extended) :
    checkLayout body.code [] = .ok () ↔
      BranchesStayBehind extended.code fragment.length := by
  obtain ⟨aligned, -, exceptions, moved, -, -, laidOut, rfl⟩ := insertPrologue_eq_ok_iff.mp inserted
  obtain ⟨complete, branchesLand, -⟩ := checkLayout_eq_ok_iff.mp laidOut
  obtain ⟨front, back⟩ := tiles_of_spliced aligned decodes complete
  have spliced := front.append_shifted aligned back
  have listed := spliced.ofCode_eq
  constructor
  · intro own instruction member behind target branchesTo
    rw [listed] at member
    rw [Instruction.targetsIn_eq spliced member] at branchesTo
    obtain ⟨original, there, rfl⟩ := exists_original_of_spliced front member behind
    rw [original.targets_shifted aligned] at branchesTo
    obtain ⟨oldTarget, oldBranch, rfl⟩ := List.mem_map.mp branchesTo
    obtain ⟨landing, -, rfl⟩ :=
      (checkLayout_eq_ok_iff.mp own).2.1 original there oldTarget oldBranch
    omega
  · intro stays
    refine checkLayout_eq_ok_iff.mpr ⟨?_, fun instruction there target branchesTo => ?_, by simp⟩
    · rw [back.ofCode_eq]
    have member : instruction.shifted fragment.length ∈
        (Listing.ofCode (fragment.code ++ body.code)).instructions := by
      rw [listed]
      exact List.mem_append_right _ (List.mem_map_of_mem there)
    have movedTarget :
        target + fragment.length ∈ (instruction.shifted fragment.length).targets := by
      rw [instruction.targets_shifted aligned]
      exact List.mem_map_of_mem branchesTo
    obtain ⟨landing, landingThere, same⟩ := branchesLand _ member _ movedTarget
    have inSpliced := member
    rw [listed] at inSpliced landingThere
    rw [← Instruction.targetsIn_eq spliced inSpliced] at movedTarget
    have landsBehind := stays _ member (Nat.le_add_left _ _) _ movedTarget
    obtain ⟨original, originalThere, rfl⟩ :=
      exists_original_of_spliced front landingThere (by omega)
    refine ⟨original, originalThere, ?_⟩
    simp only [Instruction.shifted, Int.natCast_add] at same
    omega

/-- The switch of the sample method stays behind four bytes in front of it. -/
theorem branchesStayBehind_of_switch :
    ∃ extended, switchSample.insertPrologue ConstantPool.empty fourNops = .ok extended ∧
      BranchesStayBehind extended.code fourNops.length := by
  have decodes : (Listing.ofCode fourNops.code).failure = none := by decide +kernel
  have laidOut : checkLayout switchSample.code [] = .ok () :=
    eq_ok_of_toOption (by decide +kernel)
  have inserted : switchSample.insertPrologue ConstantPool.empty fourNops =
      .ok { switchSample with code := fourNops.code ++ switchSample.code } :=
    eq_ok_of_toOption (by decide +kernel)
  exact ⟨_, inserted, (checkLayout_iff_branchesStayBehind decodes inserted).mp laidOut⟩

/-- A method that is a branch to four bytes before itself. -/
def backwardSample : MethodCode := plain 0 0 [Opcode.gotoW, 0xFF, 0xFF, 0xFF, 0xFC]

/-- On its own the method is refused, but behind four bytes that do nothing it is accepted,
and its branch leads to them. -/
theorem insertPrologue_backwardSample :
    checkLayout backwardSample.code [] = .error (.badBranchTarget 0 (-4)) ∧
      (Listing.ofCode fourNops.code).failure = none ∧ fourNops.length % 4 = 0 ∧
      ∃ extended, backwardSample.insertPrologue ConstantPool.empty fourNops = .ok extended ∧
        (Instruction.mk 4 Opcode.gotoW [0xFF, 0xFF, 0xFF, 0xFC]).targetsIn extended.code = [0] ∧
        ¬BranchesStayBehind extended.code fourNops.length := by
  decide +kernel

end MethodCode

end Lookout
