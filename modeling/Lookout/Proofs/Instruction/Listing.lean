/-
# Instructions tile the code

A listing that did not fail covers its code without gaps: the code is the
instructions' own bytes, one after the other, and each decodes where it stands.
That view makes the two facts about splicing plain: code put behind other code
lists as the one and then the other, and code that is moved by a multiple of
four lists as the same instructions further on.
-/

import Lookout.Instruction.Layout
import Lookout.Proofs.Instruction.Decoding

namespace Lookout

namespace Listing

/-- The code, which starts at the offset, is the bytes of the instructions in a row,
each of which decodes where it stands. -/
inductive Tiles : Nat → Bytes → List Instruction → Prop where
  | nil (offset : Nat) : Tiles offset [] []
  | cons {instruction : Instruction} {rest : Bytes} {later : List Instruction} :
      instruction.IsWhole → Tiles (instruction.offset + instruction.length) rest later →
        Tiles instruction.offset (instruction.opcode :: (instruction.operands ++ rest))
          (instruction :: later)

/-- The listing of code that starts at the offset. -/
def startingAt (offset : Nat) (code : Bytes) : Listing := ofBytesOnto [] offset code

theorem ofBytesOnto_eq (done : List Instruction) (offset : Nat) (code : Bytes) :
    ofBytesOnto done offset code =
      ⟨done.reverse ++ (startingAt offset code).instructions,
        (startingAt offset code).failure⟩ := by
  induction size : code.length using Nat.strongRecOn generalizing done offset code with
  | ind length ih =>
      unfold startingAt
      cases code with
      | nil => simp [ofBytesOnto]
      | cons opcode following =>
          rw [ofBytesOnto, ofBytesOnto]
          cases Instruction.ofBytes offset opcode following with
          | error fault => simp
          | ok instruction =>
              dsimp only
              have smaller : (following.drop instruction.operands.length).length < length := by
                rw [List.length_drop, ← size, List.length_cons]
                omega
              rw [ih _ smaller (instruction :: done) _ _ rfl, ih _ smaller [instruction] _ _ rfl]
              simp

theorem startingAt_cons_error {offset : Nat} {opcode : UInt8} {following : Bytes}
    {fault : ClassFileError} (failed : Instruction.ofBytes offset opcode following = .error fault) :
    startingAt offset (opcode :: following) = ⟨[], some fault⟩ := by
  rw [startingAt, ofBytesOnto, failed]
  rfl

/-- A listing goes on behind a whole instruction. -/
theorem startingAt_instruction {instruction : Instruction} (whole : instruction.IsWhole)
    (rest : Bytes) :
    startingAt instruction.offset (instruction.opcode :: (instruction.operands ++ rest)) =
      ⟨instruction :: (startingAt (instruction.offset + instruction.length) rest).instructions,
        (startingAt (instruction.offset + instruction.length) rest).failure⟩ := by
  have decoded : Instruction.ofBytes instruction.offset instruction.opcode
      (instruction.operands ++ rest) = .ok instruction :=
    Instruction.ofBytes_eq_ok_iff.mpr ⟨rfl, rfl, ⟨rest, rfl⟩, whole⟩
  rw [startingAt, ofBytesOnto, decoded]
  dsimp only
  rw [List.drop_left, ofBytesOnto_eq]
  rfl

namespace Tiles

/-- Tiled code is listed as its tiles. -/
theorem startingAt_eq {offset : Nat} {code : Bytes} {instructions : List Instruction}
    (tiles : Tiles offset code instructions) : startingAt offset code = ⟨instructions, none⟩ := by
  induction tiles with
  | nil offset => simp [startingAt, ofBytesOnto]
  | cons whole _ ih => rw [startingAt_instruction whole, ih]

theorem append {offset : Nat} {front back : Bytes} {first second : List Instruction}
    (tilesFront : Tiles offset front first)
    (tilesBack : Tiles (offset + front.length) back second) :
    Tiles offset (front ++ back) (first ++ second) := by
  induction tilesFront with
  | nil offset => simpa using tilesBack
  | @cons instruction rest later whole _ ih =>
      rw [List.cons_append, List.cons_append, List.append_assoc]
      refine .cons whole (ih ?_)
      have reached : instruction.offset + instruction.length + rest.length =
          instruction.offset + (instruction.opcode :: (instruction.operands ++ rest)).length := by
        simp only [Instruction.length, List.length_cons, List.length_append]
        omega
      rwa [reached]

/-- One whole instruction more behind code that is tiled. -/
theorem concat {code operands : Bytes} {opcode : UInt8} {instructions : List Instruction}
    (tiles : Tiles 0 code instructions)
    (whole : (Instruction.mk code.length opcode operands).IsWhole) :
    Tiles 0 (code ++ opcode :: operands) (instructions ++ [⟨code.length, opcode, operands⟩]) := by
  have added : Tiles code.length (opcode :: (operands ++ []))
      [⟨code.length, opcode, operands⟩] :=
    .cons whole (.nil _)
  rw [List.append_nil] at added
  refine tiles.append ?_
  rwa [Nat.zero_add]

theorem shifted {offset : Nat} {code : Bytes} {instructions : List Instruction}
    (tiles : Tiles offset code instructions) {distance : Nat} (aligned : distance % 4 = 0) :
    Tiles (offset + distance) code (instructions.map (Instruction.shifted distance)) := by
  induction tiles with
  | nil offset => exact .nil _
  | @cons instruction rest later whole _ ih =>
      have next : instruction.offset + instruction.length + distance =
          (instruction.shifted distance).offset + (instruction.shifted distance).length := by
        simp only [Instruction.shifted, Instruction.length]
        omega
      rw [next] at ih
      exact .cons ((Instruction.isWhole_shifted_iff aligned).mpr whole) ih

/-- Every tile is whole, and stands in the code where it says. -/
theorem of_mem {offset : Nat} {code : Bytes} {instructions : List Instruction}
    (tiles : Tiles offset code instructions) {instruction : Instruction}
    (member : instruction ∈ instructions) :
    instruction.IsWhole ∧ offset ≤ instruction.offset ∧
      ∃ back, code.drop (instruction.offset - offset) =
        instruction.opcode :: (instruction.operands ++ back) := by
  induction tiles with
  | nil => cases member
  | @cons first rest later whole _ ih =>
      rcases List.mem_cons.mp member with rfl | inLater
      · exact ⟨whole, Nat.le_refl _, rest, by rw [Nat.sub_self, List.drop_zero]⟩
      · obtain ⟨itsWhole, behind, back, there⟩ := ih inLater
        refine ⟨itsWhole, by omega, back, ?_⟩
        have passed : instruction.offset - first.offset =
            (first.opcode :: first.operands).length +
              (instruction.offset - (first.offset + first.length)) := by
          simp only [Instruction.length, List.length_cons] at behind ⊢
          omega
        rw [passed, ← List.cons_append, List.drop_length_add_append, there]

/-- A tile starts inside the code. -/
theorem offset_lt {offset : Nat} {code : Bytes} {instructions : List Instruction}
    (tiles : Tiles offset code instructions) {instruction : Instruction}
    (member : instruction ∈ instructions) : instruction.offset < offset + code.length := by
  obtain ⟨-, behind, back, there⟩ := tiles.of_mem member
  have left := congrArg List.length there
  rw [List.length_drop, List.length_cons] at left
  omega

/-- Tiles that stand a multiple of four further on than the code are the tiles of the
code, moved on. -/
theorem exists_of_shifted {offset distance : Nat} {code : Bytes} {moved : List Instruction}
    (tiles : Tiles (offset + distance) code moved) (aligned : distance % 4 = 0) :
    ∃ instructions, Tiles offset code instructions := by
  generalize start : offset + distance = place at tiles
  induction tiles generalizing offset with
  | nil => exact ⟨[], .nil offset⟩
  | @cons instruction rest later whole _ ih =>
      have original : instruction = Instruction.shifted distance { instruction with offset } := by
        rw [Instruction.shifted, start]
      rw [original, Instruction.isWhole_shifted_iff aligned] at whole
      have goesOn : offset + instruction.length + distance =
          instruction.offset + instruction.length := by
        rw [← start]
        omega
      obtain ⟨instructions, tilesRest⟩ := ih goesOn
      exact ⟨{ instruction with offset } :: instructions, .cons whole tilesRest⟩

/-- Behind tiled code the listing goes on as if it started there. -/
theorem startingAt_append {offset : Nat} {front : Bytes} {first : List Instruction}
    (tiles : Tiles offset front first) (back : Bytes) :
    startingAt offset (front ++ back) =
      ⟨first ++ (startingAt (offset + front.length) back).instructions,
        (startingAt (offset + front.length) back).failure⟩ := by
  induction tiles with
  | nil offset => rfl
  | @cons instruction rest later whole _ ih =>
      have reached : instruction.offset + instruction.length + rest.length =
          instruction.offset + (instruction.opcode :: (instruction.operands ++ rest)).length := by
        simp only [Instruction.length, List.length_cons, List.length_append]
        omega
      rw [List.cons_append, List.append_assoc, startingAt_instruction whole, ih, reached]
      rfl

/-- Code behind other code that ends at a multiple of four is tiled as on its own, with
every tile moved on. -/
theorem append_shifted {front back : Bytes} {first second : List Instruction}
    (tilesFront : Tiles 0 front first) (aligned : front.length % 4 = 0)
    (tilesBack : Tiles 0 back second) :
    Tiles 0 (front ++ back) (first ++ second.map (Instruction.shifted front.length)) :=
  tilesFront.append (tilesBack.shifted aligned)

theorem ofCode_eq {code : Bytes} {instructions : List Instruction}
    (tiles : Tiles 0 code instructions) : ofCode code = ⟨instructions, none⟩ :=
  tiles.startingAt_eq

/-- Decoding at the offset of a tile yields the tile. -/
theorem decode_eq_ok {code : Bytes} {instructions : List Instruction}
    (tiles : Tiles 0 code instructions) {instruction : Instruction}
    (member : instruction ∈ instructions) :
    Instruction.decode code instruction.offset = .ok instruction := by
  obtain ⟨whole, -, back, there⟩ := tiles.of_mem member
  rw [Nat.sub_zero] at there
  rw [Instruction.decode, there]
  exact Instruction.ofBytes_eq_ok_iff.mpr ⟨rfl, rfl, ⟨back, rfl⟩, whole⟩

end Tiles

/-- A listing without failure tiles its code. -/
theorem tiles_of_failure {offset : Nat} {code : Bytes}
    (complete : (startingAt offset code).failure = none) :
    Tiles offset code (startingAt offset code).instructions := by
  induction size : code.length using Nat.strongRecOn generalizing offset code with
  | ind length ih =>
      cases code with
      | nil =>
          have empty : startingAt offset [] = ⟨[], none⟩ := by simp [startingAt, ofBytesOnto]
          rw [empty]
          exact .nil offset
      | cons opcode following =>
          cases decoded : Instruction.ofBytes offset opcode following with
          | error fault =>
              rw [startingAt_cons_error decoded] at complete
              cases complete
          | ok instruction =>
              obtain ⟨rfl, rfl, ⟨back, rfl⟩, whole⟩ := Instruction.ofBytes_eq_ok_iff.mp decoded
              rw [startingAt_instruction whole] at complete ⊢
              refine .cons whole (ih back.length ?_ complete rfl)
              rw [← size, List.length_cons, List.length_append]
              omega

/-- The listing of a whole code array that did not fail. -/
theorem tiles_ofCode {code : Bytes} (complete : (ofCode code).failure = none) :
    Tiles 0 code (ofCode code).instructions :=
  tiles_of_failure complete

end Listing

namespace Instruction

/-- The offsets that the instruction may branch to, computed from the code array that
it stands in. -/
def targetsIn (code : Bytes) (instruction : Instruction) : List Int :=
  branchTargets instruction.offset instruction.opcode (code.drop (instruction.offset + 1))

/-- For an instruction of a listing it makes no difference whether its branches are
computed from the code array or from its own bytes. -/
theorem targetsIn_eq {code : Bytes} {instructions : List Instruction}
    (tiles : Listing.Tiles 0 code instructions) {instruction : Instruction}
    (member : instruction ∈ instructions) : instruction.targetsIn code = instruction.targets := by
  obtain ⟨whole, -, back, there⟩ := tiles.of_mem member
  rw [Nat.sub_zero] at there
  rw [targetsIn, ← List.drop_drop, there, List.drop_succ_cons, List.drop_zero,
    whole.branchTargets_append]

end Instruction

/-! ### Well laid out code -/

theorem isStart_iff {starts : List Nat} {target : Int} :
    isStart (Std.TreeSet.ofList starts) target = true ↔
      ∃ start ∈ starts, (start : Int) = target := by
  simp only [isStart, Bool.and_eq_true, decide_eq_true_eq, Std.TreeSet.contains_ofList,
    List.contains_iff_mem]
  constructor
  · rintro ⟨positive, there⟩
    exact ⟨target.toNat, there, Int.toNat_of_nonneg positive⟩
  · rintro ⟨start, there, rfl⟩
    exact ⟨Int.natCast_nonneg start, by rwa [Int.toNat_natCast]⟩

namespace Listing

/-- The offset is the start of an instruction of the listing. -/
def Starts (listing : Listing) (offset : Int) : Prop :=
  ∃ landing ∈ listing.instructions, (landing.offset : Int) = offset

theorem isStart_starts_iff {listing : Listing} {target : Int} :
    isStart (Std.TreeSet.ofList listing.starts) target = true ↔ listing.Starts target := by
  rw [isStart_iff, starts, Starts]
  constructor
  · rintro ⟨start, there, rfl⟩
    obtain ⟨landing, member, rfl⟩ := List.mem_map.mp there
    exact ⟨landing, member, rfl⟩
  · rintro ⟨landing, member, rfl⟩
    exact ⟨landing.offset, List.mem_map_of_mem member, rfl⟩

theorem contains_starts_iff {listing : Listing} {offset : Nat} :
    (Std.TreeSet.ofList listing.starts).contains offset = true ↔ listing.Starts offset := by
  rw [← isStart_starts_iff, isStart, Int.toNat_natCast]
  simp

/-- No branch goes astray when all targets of all instructions are starts. -/
theorem find?_branches_eq_none_iff {listing : Listing} :
    (listing.branches.find? fun branch =>
        !isStart (Std.TreeSet.ofList listing.starts) branch.2) = none ↔
      ∀ instruction ∈ listing.instructions, ∀ target ∈ instruction.targets,
        listing.Starts target := by
  rw [List.find?_eq_none]
  constructor
  · intro noneAstray instruction member target branchesTo
    have branch : (instruction.offset, target) ∈ listing.branches :=
      List.mem_flatMap.mpr ⟨instruction, member, List.mem_map_of_mem branchesTo⟩
    simpa [isStart_starts_iff] using noneAstray _ branch
  · rintro allLand branch inBranches
    obtain ⟨instruction, member, inTargets⟩ := List.mem_flatMap.mp inBranches
    obtain ⟨target, branchesTo, rfl⟩ := List.mem_map.mp inTargets
    simpa [isStart_starts_iff] using allLand instruction member target branchesTo

/-- No recorded offset is wrong when each is a start or the end of the code. -/
theorem find?_references_eq_none_iff {listing : Listing} {codeLength : Nat}
    {references : List OffsetReference} :
    (references.find? fun reference => !(reference.offset == codeLength ||
        (Std.TreeSet.ofList listing.starts).contains reference.offset)) = none ↔
      ∀ reference ∈ references,
        reference.offset = codeLength ∨ listing.Starts reference.offset := by
  simp only [List.find?_eq_none, Bool.not_eq_true, Bool.not_eq_false', Bool.or_eq_true,
    beq_iff_eq, contains_starts_iff]

end Listing

/-- Code is well laid out if all of it decodes, all branches lead to instructions, and
all recorded offsets are those of instructions or the end of the code. -/
theorem checkLayout_eq_ok_iff {code : Bytes} {references : List OffsetReference} :
    checkLayout code references = .ok () ↔
      (Listing.ofCode code).failure = none ∧
        (∀ instruction ∈ (Listing.ofCode code).instructions, ∀ target ∈ instruction.targets,
          (Listing.ofCode code).Starts target) ∧
        ∀ reference ∈ references, reference.offset = code.length ∨
          (Listing.ofCode code).Starts reference.offset := by
  rw [← Listing.find?_branches_eq_none_iff, ← Listing.find?_references_eq_none_iff]
  unfold checkLayout
  dsimp only
  cases (Listing.ofCode code).failure with
  | some fault => simp
  | none =>
      cases (Listing.ofCode code).branches.find? fun branch =>
          !isStart (Std.TreeSet.ofList (Listing.ofCode code).starts) branch.2 with
      | some branch => simp
      | none =>
          cases references.find? fun reference => !(reference.offset == code.length ||
              (Std.TreeSet.ofList (Listing.ofCode code).starts).contains reference.offset) with
          | some reference => simp
          | none => simp

/-- No recorded offset lies behind the end of the code. -/
theorem offset_le_of_checkLayout {code : Bytes} {references : List OffsetReference}
    (laidOut : checkLayout code references = .ok ()) {reference : OffsetReference}
    (member : reference ∈ references) : reference.offset ≤ code.length := by
  obtain ⟨complete, -, recorded⟩ := checkLayout_eq_ok_iff.mp laidOut
  rcases recorded reference member with atEnd | ⟨landing, there, same⟩
  · exact Nat.le_of_eq atEnd
  · have inside := (Listing.tiles_ofCode complete).offset_lt there
    omega

/-- Code that is well laid out stays so behind other such code that ends at a multiple of
four, if the recorded offsets are moved on. -/
theorem checkLayout_append {front back : Bytes} {references moved : List OffsetReference}
    (aligned : front.length % 4 = 0) (frontLaidOut : checkLayout front [] = .ok ())
    (backLaidOut : checkLayout back references = .ok ())
    (follow : ∀ reference ∈ moved, ∃ original ∈ references,
      reference.offset = original.offset + front.length) :
    checkLayout (front ++ back) moved = .ok () := by
  obtain ⟨frontComplete, frontLands, -⟩ := checkLayout_eq_ok_iff.mp frontLaidOut
  obtain ⟨backComplete, backLands, recorded⟩ := checkLayout_eq_ok_iff.mp backLaidOut
  have listed := ((Listing.tiles_ofCode frontComplete).append_shifted aligned
    (Listing.tiles_ofCode backComplete)).ofCode_eq
  have startsFront {target : Int} (lands : (Listing.ofCode front).Starts target) :
      (Listing.ofCode (front ++ back)).Starts target := by
    obtain ⟨landing, there, rfl⟩ := lands
    rw [listed]
    exact ⟨landing, List.mem_append_left _ there, rfl⟩
  have startsBack {target : Int} (lands : (Listing.ofCode back).Starts target) :
      (Listing.ofCode (front ++ back)).Starts (target + front.length) := by
    obtain ⟨landing, there, rfl⟩ := lands
    rw [listed]
    exact ⟨landing.shifted front.length,
      List.mem_append_right _ (List.mem_map_of_mem there), Int.natCast_add _ _⟩
  refine checkLayout_eq_ok_iff.mpr ⟨by rw [listed], fun instruction member target branchesTo => ?_,
    fun reference member => ?_⟩
  · rw [listed] at member
    rcases List.mem_append.mp member with inFront | inBack
    · exact startsFront (frontLands instruction inFront target branchesTo)
    · obtain ⟨original, there, rfl⟩ := List.mem_map.mp inBack
      rw [original.targets_shifted aligned] at branchesTo
      obtain ⟨oldTarget, oldBranch, rfl⟩ := List.mem_map.mp branchesTo
      exact startsBack (backLands original there oldTarget oldBranch)
  · obtain ⟨original, there, movedOn⟩ := follow reference member
    rw [movedOn, List.length_append]
    rcases recorded original there with atEnd | lands
    · exact .inl (by omega)
    · exact .inr (startsBack lands)

end Lookout
