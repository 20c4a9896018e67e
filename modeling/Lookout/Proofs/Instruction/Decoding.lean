/-
# Decoding looks at nothing but the instruction

Whether bytes decode to an instruction depends on the bytes of the instruction
alone: not on what follows, and on its offset only up to multiples of four,
because that is all that the padding of a switch depends on. The same holds of
the branches it takes, which move along with it.
-/

import Lookout.Instruction.Branch
import Lookout.Proofs.Bytes.Word

namespace Lookout

namespace Bytes

theorem word32?_append {front : Bytes} (whole : 4 ≤ front.length) (back : Bytes) :
    word32? (front ++ back) = word32? front := by
  match front, whole with
  | b3 :: b2 :: b1 :: b0 :: rest, _ => rfl

theorem signedWordAt?_append {front : Bytes} {offset : Nat} (inside : offset + 4 ≤ front.length)
    (back : Bytes) : signedWordAt? (front ++ back) offset = signedWordAt? front offset := by
  rw [signedWordAt?, signedWordAt?, List.drop_append_of_le_length (by omega),
    word32?_append (by rw [List.length_drop]; omega)]

/-- Words inside a run of bytes are the same with more bytes behind it. -/
theorem signedWordAt?_drop_append {front : Bytes} {start offset : Nat}
    (inside : start + offset + 4 ≤ front.length) (back : Bytes) :
    signedWordAt? ((front ++ back).drop start) offset =
      signedWordAt? (front.drop start) offset := by
  rw [List.drop_append_of_le_length (by omega),
    signedWordAt?_append (by rw [List.length_drop]; omega)]

end Bytes

namespace Instruction

/-- The instruction is decoded from its own bytes. -/
def IsWhole (instruction : Instruction) : Prop :=
  ofBytes instruction.offset instruction.opcode instruction.operands = .ok instruction

/-! ### What the operand count depends on -/

theorem switchPadding_add {distance : Nat} (aligned : distance % 4 = 0) (offset : Nat) :
    switchPadding (offset + distance) = switchPadding offset := by
  unfold switchPadding
  omega

/-- The bytes behind the operands do not matter, if the operands are there. -/
theorem operandCount_append (offset : Nat) (opcode : UInt8) {operands : Bytes} (back : Bytes)
    {count : Nat} (inside : count ≤ operands.length) :
    operandCount offset opcode (operands ++ back) = .ok count ↔
      operandCount offset opcode operands = .ok count := by
  unfold operandCount
  by_cases table : opcode = Opcode.tableswitch
  · simp only [if_pos table]
    by_cases header : switchPadding offset + 12 ≤ operands.length
    · rw [Bytes.signedWordAt?_drop_append (by omega), Bytes.signedWordAt?_drop_append (by omega)]
    · -- Without the header both sides would count more operands than there are.
      constructor <;> intro success <;> split at success <;> try cases success
      all_goals
        split at success
        · cases success
        · rw [Except.ok.injEq] at success
          omega
  by_cases lookup : opcode = Opcode.lookupswitch
  · simp only [if_neg table, if_pos lookup]
    by_cases header : switchPadding offset + 8 ≤ operands.length
    · rw [Bytes.signedWordAt?_drop_append (by omega)]
    · constructor <;> intro success <;> split at success <;> try cases success
      all_goals
        split at success
        · cases success
        · rw [Except.ok.injEq] at success
          omega
  by_cases wide : opcode = Opcode.wide
  · simp only [if_neg table, if_neg lookup, if_pos wide]
    cases operands with
    | cons widened rest => exact Iff.rfl
    | nil =>
        rw [List.length_nil, Nat.le_zero] at inside
        constructor
        · intro success
          split at success
          · cases success
          · split at success
            · cases success
              cases inside
            · split at success
              · cases success
                cases inside
              · cases success
        · intro impossible
          cases impossible
  · simp only [if_neg table, if_neg lookup, if_neg wide]

/-- Of the offset only the padding of a switch matters. -/
theorem operandCount_of_switchPadding {offset other : Nat}
    (same : switchPadding other = switchPadding offset) {opcode : UInt8} {following : Bytes}
    {count : Nat} (success : operandCount offset opcode following = .ok count) :
    operandCount other opcode following = .ok count := by
  unfold operandCount at success ⊢
  rw [same]
  by_cases table : opcode = Opcode.tableswitch
  · rw [if_pos table] at success ⊢
    dsimp only at success ⊢
    split at success
    · split at success
      · cases success
      · rename_i ordered
        rw [if_neg ordered]
        exact success
    · cases success
  by_cases lookup : opcode = Opcode.lookupswitch
  · rw [if_neg table, if_pos lookup] at success ⊢
    dsimp only at success ⊢
    split at success
    · split at success
      · cases success
      · rename_i counted
        rw [if_neg counted]
        exact success
    · cases success
  by_cases wide : opcode = Opcode.wide
  · rw [if_neg table, if_neg lookup, if_pos wide] at success ⊢
    split at success
    · cases success
    · split at success
      · rename_i increment
        rw [if_pos increment]
        exact success
      · rename_i noIncrement
        rw [if_neg noIncrement]
        split at success
        · rename_i access
          rw [if_pos access]
          exact success
        · cases success
  · rw [if_neg table, if_neg lookup, if_neg wide] at success ⊢
    split at success
    · exact success
    · cases success

/-! ### Whole instructions -/

theorem isWhole_iff (instruction : Instruction) :
    instruction.IsWhole ↔
      operandCount instruction.offset instruction.opcode instruction.operands =
        .ok instruction.operands.length := by
  unfold IsWhole ofBytes
  split
  · rename_i fault failed
    simp [failed]
  · rename_i count counted
    dsimp only
    rw [counted, Except.ok.injEq]
    split
    · rename_i enough
      constructor
      · intro same
        rw [Except.ok.injEq] at same
        have operands := congrArg (fun other => other.operands.length) same
        dsimp only at operands
        omega
      · rintro rfl
        rw [List.take_length]
    · rename_i short
      constructor
      · intro impossible
        cases impossible
      · rintro rfl
        exact absurd (by rw [List.take_length]) short

/-- Bytes decode to an instruction exactly if they begin with its operands and the
instruction is whole. -/
theorem ofBytes_eq_ok_iff {offset : Nat} {opcode : UInt8} {following : Bytes}
    {instruction : Instruction} :
    ofBytes offset opcode following = .ok instruction ↔
      instruction.offset = offset ∧ instruction.opcode = opcode ∧
        (∃ back, following = instruction.operands ++ back) ∧ instruction.IsWhole := by
  constructor
  · intro success
    unfold ofBytes at success
    split at success
    · cases success
    · rename_i count counted
      dsimp only at success
      split at success
      · rename_i enough
        cases success
        refine ⟨rfl, rfl, ⟨following.drop count, (List.take_append_drop count following).symm⟩, ?_⟩
        rw [isWhole_iff]
        dsimp only
        rw [enough]
        rw [← List.take_append_drop count following,
          operandCount_append _ _ _ (Nat.le_of_eq enough.symm)] at counted
        exact counted
      · cases success
  · rintro ⟨rfl, rfl, ⟨back, rfl⟩, whole⟩
    rw [isWhole_iff] at whole
    have counted := (operandCount_append _ _ back (Nat.le_refl _)).mpr whole
    unfold ofBytes
    rw [counted]
    dsimp only
    rw [List.take_left', if_pos rfl]
    rfl

/-- Where the opcode decides the length, nothing else is looked at, and the operands are what
the length leaves behind the opcode. -/
theorem operandCount_of_fixedLength {opcode : UInt8} {length : Nat}
    (fixed : Opcode.fixedLength opcode = some length) (offset : Nat) (following : Bytes) :
    ∃ count, operandCount offset opcode following = .ok count ∧ count + 1 = length := by
  have notTable : opcode ≠ Opcode.tableswitch := by
    rintro rfl
    cases fixed
  have notLookup : opcode ≠ Opcode.lookupswitch := by
    rintro rfl
    cases fixed
  have notWide : opcode ≠ Opcode.wide := by
    rintro rfl
    cases fixed
  refine ⟨length - 1, ?_, Nat.sub_add_cancel (Opcode.one_le_of_fixedLength fixed)⟩
  unfold operandCount
  rw [if_neg notTable, if_neg notLookup, if_neg notWide, fixed]

/-- An instruction whose opcode decides its length is whole anywhere. -/
theorem isWhole_of_fixedLength (offset : Nat) {opcode : UInt8} {operands : Bytes}
    (fixed : Opcode.fixedLength opcode = some (operands.length + 1)) :
    (Instruction.mk offset opcode operands).IsWhole := by
  obtain ⟨count, counted, same⟩ := operandCount_of_fixedLength fixed offset operands
  rw [isWhole_iff, counted, Nat.succ.inj same]

/-- A whole instruction is as long as its opcode says, if that says anything. -/
theorem IsWhole.length_of_fixedLength {instruction : Instruction} (whole : instruction.IsWhole)
    {length : Nat} (fixed : Opcode.fixedLength instruction.opcode = some length) :
    instruction.length = length := by
  obtain ⟨count, counted, same⟩ :=
    operandCount_of_fixedLength fixed instruction.offset instruction.operands
  rw [isWhole_iff, counted, Except.ok.injEq] at whole
  rw [Instruction.length, ← whole, same]

/-- Whether an instruction is whole does not depend on its offset, up to multiples of
four. -/
theorem isWhole_shifted_iff {instruction : Instruction} {distance : Nat}
    (aligned : distance % 4 = 0) :
    (instruction.shifted distance).IsWhole ↔ instruction.IsWhole := by
  have same := switchPadding_add aligned instruction.offset
  rw [isWhole_iff, isWhole_iff]
  exact ⟨operandCount_of_switchPadding same.symm, operandCount_of_switchPadding same⟩

/-! ### Branches -/

private theorem fixedLength_of_isShortBranch {opcode : UInt8}
    (short : Opcode.isShortBranch opcode = true) : Opcode.fixedLength opcode = some 3 := by
  have all : ∀ value < 256, Opcode.isShortBranch (UInt8.ofNat value) = true →
      Opcode.fixedLength (UInt8.ofNat value) = some 3 := by
    decide +kernel
  have here := all opcode.toNat opcode.toNat_lt
  rw [UInt8.ofNat_toNat] at here
  exact here short

private theorem fixedLength_of_isLongBranch {opcode : UInt8}
    (long : Opcode.isLongBranch opcode = true) : Opcode.fixedLength opcode = some 5 := by
  simp only [Opcode.isLongBranch, Bool.or_eq_true, beq_iff_eq] at long
  rcases long with rfl | rfl <;> decide

/-- A whole table switch has its header, and one word for each of its keys. -/
theorem IsWhole.tableswitch {instruction : Instruction} (whole : instruction.IsWhole)
    (table : instruction.opcode = Opcode.tableswitch) :
    ∃ low high, low ≤ high ∧
      Bytes.signedWordAt? (instruction.operands.drop (switchPadding instruction.offset)) 4 =
        some low ∧
      Bytes.signedWordAt? (instruction.operands.drop (switchPadding instruction.offset)) 8 =
        some high ∧
      instruction.operands.length =
        switchPadding instruction.offset + 12 + 4 * (high - low + 1).toNat := by
  rw [isWhole_iff] at whole
  unfold operandCount at whole
  rw [if_pos table] at whole
  dsimp only at whole
  split at whole
  · rename_i low high lowFound highFound
    split at whole
    · cases whole
    · rename_i ordered
      rw [Except.ok.injEq] at whole
      exact ⟨low, high, Int.not_lt.mp ordered, lowFound, highFound, whole.symm⟩
  · cases whole

/-- A whole lookup switch has its header, and two words for each of its keys. -/
theorem IsWhole.lookupswitch {instruction : Instruction} (whole : instruction.IsWhole)
    (lookup : instruction.opcode = Opcode.lookupswitch) :
    ∃ pairs, 0 ≤ pairs ∧
      Bytes.signedWordAt? (instruction.operands.drop (switchPadding instruction.offset)) 4 =
        some pairs ∧
      instruction.operands.length = switchPadding instruction.offset + 8 + 8 * pairs.toNat := by
  have noTable : instruction.opcode ≠ Opcode.tableswitch := by
    rw [lookup]
    decide
  rw [isWhole_iff] at whole
  unfold operandCount at whole
  rw [if_neg noTable, if_pos lookup] at whole
  dsimp only at whole
  split at whole
  · rename_i pairs found
    split at whole
    · cases whole
    · rename_i counted
      rw [Except.ok.injEq] at whole
      exact ⟨pairs, Int.not_lt.mp counted, found, whole.symm⟩
  · cases whole

theorem signedWordsOnto_append (done : List Int) (count : Nat) {front : Bytes}
    (whole : 4 * count ≤ front.length) (back : Bytes) :
    signedWordsOnto done count (front ++ back) = signedWordsOnto done count front := by
  induction count generalizing done front with
  | zero => rw [signedWordsOnto.eq_2 _ _ _ (by simp), signedWordsOnto.eq_2 _ _ _ (by simp)]
  | succ count ih =>
      match front, whole with
      | b3 :: b2 :: b1 :: b0 :: rest, whole =>
          simp only [List.cons_append, signedWordsOnto]
          exact ih _ (by simp only [List.length_cons] at whole; omega)

theorem signedPairsOnto_append (done : List Int) (count : Nat) {front : Bytes}
    (whole : 8 * count ≤ front.length) (back : Bytes) :
    signedPairsOnto done count (front ++ back) = signedPairsOnto done count front := by
  induction count generalizing done front with
  | zero => rw [signedPairsOnto.eq_2 _ _ _ (by simp), signedPairsOnto.eq_2 _ _ _ (by simp)]
  | succ count ih =>
      match front, whole with
      | _ :: _ :: _ :: _ :: b3 :: b2 :: b1 :: b0 :: rest, whole =>
          simp only [List.cons_append, signedPairsOnto]
          exact ih _ (by simp only [List.length_cons] at whole; omega)

/-- The branches of a whole instruction are found in its own bytes. -/
theorem IsWhole.branchTargets_append {instruction : Instruction} (whole : instruction.IsWhole)
    (back : Bytes) :
    branchTargets instruction.offset instruction.opcode (instruction.operands ++ back) =
      instruction.targets := by
  rw [targets, branchTargets, branchTargets]
  congr 1
  unfold branchOffsets
  by_cases short : Opcode.isShortBranch instruction.opcode = true
  · have size : instruction.operands.length = 2 :=
      Nat.succ.inj (whole.length_of_fixedLength (fixedLength_of_isShortBranch short))
    rw [if_pos short, if_pos short]
    match operands : instruction.operands, size with
    | high :: low :: rest, _ => rfl
  by_cases long : Opcode.isLongBranch instruction.opcode = true
  · have size : instruction.operands.length = 4 :=
      Nat.succ.inj (whole.length_of_fixedLength (fixedLength_of_isLongBranch long))
    rw [if_neg short, if_neg short, if_pos long, if_pos long, Bytes.signedWordAt?_append (by omega)]
  by_cases table : instruction.opcode = Opcode.tableswitch
  · obtain ⟨low, high, ordered, lowFound, highFound, size⟩ := whole.tableswitch table
    rw [if_neg short, if_neg short, if_neg long, if_neg long, if_pos table, if_pos table,
      List.drop_append_of_le_length (by omega)]
    have bodySize : (instruction.operands.drop (switchPadding instruction.offset)).length =
        12 + 4 * (high - low + 1).toNat := by
      rw [List.length_drop]
      omega
    unfold tableOffsets
    rw [Bytes.signedWordAt?_append (by omega), Bytes.signedWordAt?_append (by omega),
      Bytes.signedWordAt?_append (by omega), lowFound, highFound,
      List.drop_append_of_le_length (by omega)]
    dsimp only [Option.getD_some]
    rw [signedWordsOnto_append _ _ (by rw [List.length_drop]; omega)]
  by_cases lookup : instruction.opcode = Opcode.lookupswitch
  · obtain ⟨pairs, counted, found, size⟩ := whole.lookupswitch lookup
    rw [if_neg short, if_neg short, if_neg long, if_neg long, if_neg table, if_neg table,
      if_pos lookup, if_pos lookup, List.drop_append_of_le_length (by omega)]
    have bodySize : (instruction.operands.drop (switchPadding instruction.offset)).length =
        8 + 8 * pairs.toNat := by
      rw [List.length_drop]
      omega
    unfold lookupOffsets
    rw [Bytes.signedWordAt?_append (by omega), Bytes.signedWordAt?_append (by omega), found,
      List.drop_append_of_le_length (by omega)]
    dsimp only [Option.getD_some]
    rw [signedPairsOnto_append _ _ (by rw [List.length_drop]; omega)]
  · rw [if_neg short, if_neg short, if_neg long, if_neg long, if_neg table, if_neg table,
      if_neg lookup, if_neg lookup]

/-- The branches of an instruction move with it. -/
theorem targets_shifted (instruction : Instruction) {distance : Nat} (aligned : distance % 4 = 0) :
    (instruction.shifted distance).targets =
      instruction.targets.map fun target => target + (distance : Int) := by
  have sameOffsets : branchOffsets (instruction.offset + distance) instruction.opcode
      instruction.operands =
        branchOffsets instruction.offset instruction.opcode instruction.operands := by
    unfold branchOffsets
    rw [switchPadding_add aligned]
  unfold targets shifted branchTargets
  dsimp only
  rw [sameOffsets, List.map_map]
  apply List.map_congr_left
  intro relative _
  simp only [Function.comp_apply, Int.natCast_add]
  omega

end Instruction

end Lookout
