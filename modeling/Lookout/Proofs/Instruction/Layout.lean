/-
# What well laid out code is

Code is decoded one instruction after the other, each where the one before it ends. It is
well laid out if this comes out at the end of the code, all branches lead to one of these
instructions, and so do all offsets recorded elsewhere, save that they may name the end of
the code. What is reported otherwise is the first branch that goes astray, or the first
recorded offset that is wrong if no branch is.
-/

import Lookout.Proofs.Instruction.Listing
import Mathlib.Data.List.Basic

namespace Lookout

namespace Instruction

/-- Decoding from the offset on, each instruction where the one before it ends, yields these
instructions and comes out exactly at the end of the code. -/
inductive Decoded (code : Bytes) : Nat → List Instruction → Prop where
  | finished : Decoded code code.length []
  | step {offset : Nat} {instruction : Instruction} {later : List Instruction} :
      decode code offset = .ok instruction →
        Decoded code (offset + instruction.length) later →
          Decoded code offset (instruction :: later)

theorem decode_eq_ok_iff {code : Bytes} {offset : Nat} {instruction : Instruction} :
    decode code offset = .ok instruction ↔
      instruction.offset = offset ∧ instruction.IsWhole ∧
        ∃ back, code.drop offset = instruction.opcode :: (instruction.operands ++ back) := by
  unfold decode
  cases code.drop offset with
  | nil => simp
  | cons opcode following =>
      simp only [ofBytes_eq_ok_iff, List.cons.injEq]
      constructor
      · rintro ⟨rfl, rfl, ⟨back, rfl⟩, whole⟩
        exact ⟨rfl, whole, back, rfl, rfl⟩
      · rintro ⟨rfl, whole, back, rfl, rfl⟩
        exact ⟨rfl, rfl, ⟨back, rfl⟩, whole⟩

/-- What is left of the code behind an instruction is what stands behind its operands. -/
theorem drop_length_eq {code back : Bytes} {instruction : Instruction}
    (there : code.drop instruction.offset = instruction.opcode :: (instruction.operands ++ back)) :
    code.drop (instruction.offset + instruction.length) = back := by
  rw [← List.drop_drop, there, length, List.drop_succ_cons, List.drop_left]

end Instruction

namespace Listing

open Instruction

/-- Decoding step by step is listing: the instructions tile what is left of the code. -/
theorem tiles_of_decoded {code : Bytes} {offset : Nat} {instructions : List Instruction}
    (decoded : Decoded code offset instructions) :
    offset ≤ code.length ∧ Tiles offset (code.drop offset) instructions := by
  induction decoded with
  | finished => exact ⟨Nat.le_refl _, by rw [List.drop_length]; exact .nil _⟩
  | @step offset instruction later success _ ih =>
      obtain ⟨rfl, whole, back, there⟩ := decode_eq_ok_iff.mp success
      obtain ⟨inside, tiles⟩ := ih
      rw [drop_length_eq there] at tiles
      refine ⟨by omega, ?_⟩
      rw [there]
      exact .cons whole tiles

theorem decoded_of_tiles {code rest : Bytes} {offset : Nat} {instructions : List Instruction}
    (tiles : Tiles offset rest instructions) (inside : offset ≤ code.length)
    (left : code.drop offset = rest) : Decoded code offset instructions := by
  induction tiles with
  | nil offset =>
      have atEnd : offset = code.length :=
        Nat.le_antisymm inside (List.drop_eq_nil_iff.mp left)
      rw [atEnd]
      exact .finished
  | @cons instruction rest later whole _ ih =>
      have lengths := congrArg List.length left
      simp only [List.length_drop, List.length_cons, List.length_append] at lengths
      refine .step (decode_eq_ok_iff.mpr ⟨rfl, whole, rest, left⟩) (ih ?_ (drop_length_eq left))
      rw [Instruction.length]
      omega

/-- The instructions that decoding yields are those that are listed, and nothing fails. -/
theorem decoded_iff {code : Bytes} {instructions : List Instruction} :
    Decoded code 0 instructions ↔ ofCode code = ⟨instructions, none⟩ := by
  constructor
  · intro decoded
    exact (tiles_of_decoded decoded).2.ofCode_eq
  · intro listed
    have complete : (ofCode code).failure = none := by rw [listed]
    have tiles := tiles_ofCode complete
    rw [listed] at tiles
    exact decoded_of_tiles tiles (Nat.zero_le _) rfl

end Listing

/-! ### What is required, and what is reported -/

namespace Instruction

/-- The branches of instructions in code order: where each stands, and where it may lead. -/
def branchesIn (code : Bytes) (instructions : List Instruction) : List (Nat × Int) :=
  instructions.flatMap fun instruction =>
    (instruction.targetsIn code).map fun target => (instruction.offset, target)

/-- The target is an offset of the code, and one of the instructions stands there. -/
def Lands (code : Bytes) (instructions : List Instruction) (target : Int) : Prop :=
  0 ≤ target ∧ target < code.length ∧ ∃ landing ∈ instructions, (landing.offset : Int) = target

/-- The offset may be recorded: one of the instructions stands there, or the code ends. -/
def Recordable (code : Bytes) (instructions : List Instruction) (offset : Nat) : Prop :=
  offset = code.length ∨ ∃ landing ∈ instructions, landing.offset = offset

instance (code : Bytes) (instructions : List Instruction) (target : Int) :
    Decidable (Lands code instructions target) :=
  inferInstanceAs (Decidable (0 ≤ target ∧ target < code.length ∧
    ∃ landing ∈ instructions, (landing.offset : Int) = target))

instance (code : Bytes) (instructions : List Instruction) (offset : Nat) :
    Decidable (Recordable code instructions offset) :=
  inferInstanceAs (Decidable (offset = code.length ∨
    ∃ landing ∈ instructions, landing.offset = offset))

/-- What is reported of code that decodes to these instructions: the first branch that does
not land, or, if all of them do, the first recorded offset that may not be recorded. -/
inductive Blames (code : Bytes) (instructions : List Instruction)
    (references : List OffsetReference) : ClassFileError → Prop where
  | branch {before after : List (Nat × Int)} {origin : Nat} {target : Int} :
      branchesIn code instructions = before ++ (origin, target) :: after →
        (∀ earlier ∈ before, Lands code instructions earlier.2) →
          ¬Lands code instructions target →
            Blames code instructions references (.badBranchTarget origin target)
  | reference {before after : List OffsetReference} {wrong : OffsetReference} :
      (∀ branch ∈ branchesIn code instructions, Lands code instructions branch.2) →
        references = before ++ wrong :: after →
          (∀ earlier ∈ before, Recordable code instructions earlier.offset) →
            ¬Recordable code instructions wrong.offset →
              Blames code instructions references (.badBranchTarget wrong.origin wrong.reported)

end Instruction

namespace Listing

open Instruction

variable {code : Bytes} {instructions : List Instruction} {references : List OffsetReference}

section Search

variable {α : Type} {test : α → Bool} {passes : α → Prop} {values : List α}
  (same : ∀ value, test value = true ↔ passes value)

include same

/-- A search for what fails a test stops at the first that does not pass. -/
theorem find?_not_eq_some_iff {value : α} :
    (values.find? fun value => !test value) = some value ↔
      ∃ before after, values = before ++ value :: after ∧
        (∀ earlier ∈ before, passes earlier) ∧ ¬passes value := by
  simp only [List.find?_eq_some_iff_append, Bool.not_not, Bool.not_eq_true', ← same]
  constructor
  · rintro ⟨fails, before, after, split, earlier⟩
    exact ⟨before, after, split, earlier, by simp [fails]⟩
  · rintro ⟨before, after, split, earlier, fails⟩
    exact ⟨by simpa using fails, before, after, split, earlier⟩

theorem find?_not_eq_none_iff :
    (values.find? fun value => !test value) = none ↔ ∀ value ∈ values, passes value := by
  simp only [List.find?_eq_none, Bool.not_eq_true, Bool.not_eq_false', same]

end Search

theorem branches_eq (decoded : Decoded code 0 instructions) :
    (ofCode code).branches = branchesIn code instructions := by
  have tiles := (tiles_of_decoded decoded).2
  rw [List.drop_zero] at tiles
  rw [decoded_iff.mp decoded]
  refine List.flatMap_congr fun instruction member => ?_
  rw [targetsIn_eq tiles member]

/-- The starts of a listing that did not fail are where branches may land. -/
theorem starts_iff_lands (decoded : Decoded code 0 instructions) {target : Int} :
    (ofCode code).Starts target ↔ Lands code instructions target := by
  rw [decoded_iff.mp decoded]
  constructor
  · rintro ⟨landing, member, rfl⟩
    have inside := (tiles_of_decoded decoded).2.offset_lt member
    rw [List.drop_zero] at inside
    exact ⟨by omega, by omega, landing, member, rfl⟩
  · rintro ⟨-, -, landing, member, same⟩
    exact ⟨landing, member, same⟩

theorem starts_iff_recordable (decoded : Decoded code 0 instructions) {offset : Nat} :
    offset = code.length ∨ (ofCode code).Starts offset ↔ Recordable code instructions offset := by
  rw [decoded_iff.mp decoded]
  simp only [Starts, Recordable, Int.natCast_inj]

/-- What is reported of code that decodes from end to end. -/
theorem checkLayout_eq_error_iff (decoded : Decoded code 0 instructions) {fault : ClassFileError} :
    checkLayout code references = .error fault ↔ Blames code instructions references fault := by
  have complete : (ofCode code).failure = none := by rw [decoded_iff.mp decoded]
  have lands (branch : Nat × Int) :
      isStart (Std.TreeSet.ofList (ofCode code).starts) branch.2 = true ↔
        Lands code instructions branch.2 :=
    isStart_starts_iff.trans (starts_iff_lands decoded)
  have recorded (reference : OffsetReference) :
      (reference.offset == code.length ||
          (Std.TreeSet.ofList (ofCode code).starts).contains reference.offset) = true ↔
        Recordable code instructions reference.offset := by
    rw [Bool.or_eq_true, beq_iff_eq, contains_starts_iff, starts_iff_recordable decoded]
  unfold checkLayout
  simp only [complete, branches_eq decoded]
  constructor
  · intro failed
    split at failed
    case h_1 origin target astray =>
      obtain ⟨before, after, split, allLand, wrong⟩ := (find?_not_eq_some_iff lands).mp astray
      cases failed
      exact .branch split allLand wrong
    case h_2 noneAstray =>
      have allLand := (find?_not_eq_none_iff lands).mp noneAstray
      split at failed
      case h_1 reference found =>
        obtain ⟨before, after, split, allRecorded, wrong⟩ :=
          (find?_not_eq_some_iff recorded).mp found
        cases failed
        exact .reference allLand split allRecorded wrong
      case h_2 => cases failed
  · intro blamed
    cases blamed with
    | branch split allLand wrong =>
        rw [(find?_not_eq_some_iff lands).mpr ⟨_, _, split, allLand, wrong⟩]
    | reference allLand split allRecorded wrong =>
        rw [(find?_not_eq_none_iff lands).mpr allLand]
        dsimp only
        rw [(find?_not_eq_some_iff recorded).mpr ⟨_, _, split, allRecorded, wrong⟩]

/-- What is accepted is code that decodes from end to end, with branches that land and
offsets that may be recorded. -/
theorem checkLayout_eq_ok_iff_decoded :
    checkLayout code references = .ok () ↔ ∃ instructions, Decoded code 0 instructions ∧
      (∀ instruction ∈ instructions, ∀ target ∈ instruction.targetsIn code,
        Lands code instructions target) ∧
      ∀ reference ∈ references, Recordable code instructions reference.offset := by
  rw [checkLayout_eq_ok_iff]
  constructor
  · rintro ⟨complete, branchesLand, recorded⟩
    have decoded : Decoded code 0 (ofCode code).instructions := by
      rw [decoded_iff, ← complete]
    refine ⟨_, decoded, fun instruction member target branchesTo => ?_, fun reference member => ?_⟩
    · rw [targetsIn_eq (tiles_ofCode complete) member] at branchesTo
      exact (starts_iff_lands decoded).mp (branchesLand instruction member target branchesTo)
    · exact (starts_iff_recordable decoded).mp (recorded reference member)
  · rintro ⟨instructions, decoded, branchesLand, recorded⟩
    have listed := decoded_iff.mp decoded
    have complete : (ofCode code).failure = none := by rw [listed]
    have tiles := tiles_ofCode complete
    rw [listed] at tiles
    refine ⟨complete, fun instruction member target branchesTo => ?_, fun reference member => ?_⟩
    · rw [listed] at member
      rw [← targetsIn_eq tiles member] at branchesTo
      exact (starts_iff_lands decoded).mpr (branchesLand instruction member target branchesTo)
    · exact (starts_iff_recordable decoded).mpr (recorded reference member)

end Listing

namespace OffsetReference

/-- The report of an offset below 2^63 gives that offset. From there on it gives a negative
number, which is still that of no other offset of 64 bits. -/
theorem reported_names {reference : OffsetReference}
    (short : reference.offset < 18446744073709551616) :
    (reference.offset < 9223372036854775808 → reference.reported = reference.offset) ∧
      ∀ other : OffsetReference, other.offset < 18446744073709551616 →
        other.reported = reference.reported → other.offset = reference.offset := by
  have word {offset : Nat} (short : offset < 18446744073709551616) :
      (UInt64.ofNat offset).toNat = offset := by
    rw [UInt64.toNat_ofNat', Nat.mod_eq_of_lt short]
  unfold reported Word.signed64
  rw [word short]
  refine ⟨fun small => if_pos small, fun other otherShort same => ?_⟩
  rw [word otherShort] at same
  split at same <;> split at same <;> omega

end OffsetReference

open Instruction in
/-- Code is accepted exactly if it decodes from end to end, all branches lead to one of its
instructions, and so do all recorded offsets, or to the end of the code. Of code that
decodes but is not accepted, the report names the first branch that leads elsewhere, or the
first recorded offset if there is no such branch. -/
theorem checkLayout_accepts (code : Bytes) (references : List OffsetReference) :
    (checkLayout code references = .ok () ↔ ∃ instructions, Decoded code 0 instructions ∧
        (∀ instruction ∈ instructions, ∀ target ∈ instruction.targetsIn code,
          Lands code instructions target) ∧
        ∀ reference ∈ references, Recordable code instructions reference.offset) ∧
      (∀ instructions fault, Decoded code 0 instructions →
        (checkLayout code references = .error fault ↔
          Blames code instructions references fault)) ∧
      ∀ reference ∈ references, reference.offset < 18446744073709551616 →
        (reference.offset < 9223372036854775808 → reference.reported = reference.offset) ∧
          ∀ other : OffsetReference, other.offset < 18446744073709551616 →
            other.reported = reference.reported → other.offset = reference.offset :=
  ⟨Listing.checkLayout_eq_ok_iff_decoded,
    fun _ _ decoded => Listing.checkLayout_eq_error_iff decoded,
    fun _ _ short => OffsetReference.reported_names short⟩

/-- A branch at 1 over a `return` to another one. -/
def branchSample : Bytes :=
  [Opcode.iload0, Opcode.ifeq, 0, 4, Opcode.returnVoid, Opcode.returnVoid]

/-- The sample is accepted with its last instruction and its end recorded. Of an offset
inside the branch and one behind the end, the one that is recorded first is reported. -/
theorem checkLayout_accepts_branchSample :
    checkLayout branchSample [⟨0, 5⟩, ⟨0, 6⟩] = .ok () ∧
      checkLayout branchSample [⟨0, 6⟩, ⟨7, 3⟩, ⟨8, 9⟩] = .error (.badBranchTarget 7 3) := by
  have decoded : Instruction.Decoded branchSample 0 [⟨0, Opcode.iload0, []⟩,
      ⟨1, Opcode.ifeq, [0, 4]⟩, ⟨4, Opcode.returnVoid, []⟩, ⟨5, Opcode.returnVoid, []⟩] :=
    Listing.decoded_iff.mpr (by decide +kernel)
  refine ⟨(checkLayout_accepts branchSample _).1.mpr ⟨_, decoded, ?_, ?_⟩,
    ((checkLayout_accepts branchSample _).2.1 _ _ decoded).mpr ?_⟩
  · decide +kernel
  · decide +kernel
  · have parts : ([⟨0, 6⟩, ⟨7, 3⟩, ⟨8, 9⟩] : List OffsetReference) =
        [⟨0, 6⟩] ++ ⟨7, 3⟩ :: [⟨8, 9⟩] := rfl
    exact .reference (by decide +kernel) parts (by decide +kernel) (by decide +kernel)

end Lookout
