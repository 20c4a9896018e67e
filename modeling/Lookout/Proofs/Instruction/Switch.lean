/-
# What a switch is made of

A switch is given by its default, its keys and their offsets. Laid out behind
any padding up to the next multiple of four it is decoded as one instruction
that takes up just these bytes, and its targets are the default and the offsets
in order. There are no other switches: bytes that decode to one are laid out so,
with every word in place, and bounds in the wrong order or a negative count are
refused.
-/

import Lookout.Proofs.Instruction.Layout

namespace Lookout

/-! ### Runs of words -/

namespace Bytes

theorem word32?_bytes32_append (word : UInt32) (back : Bytes) :
    word32? (Word.bytes32 word ++ back) = some word := by
  simp only [Word.bytes32, List.cons_append, word32?, Word.of32_bytes]

/-- The word behind a run of bytes, by the length of the run. -/
theorem signedWordAt?_length (front : Bytes) (word : UInt32) (back : Bytes) :
    signedWordAt? (front ++ (Word.bytes32 word ++ back)) front.length =
      some (Word.signed32 word) := by
  rw [signedWordAt?, List.drop_left, word32?_bytes32_append, Option.map_some]

end Bytes

/-- The bytes of a key and its offset. -/
def keyedBytes (pair : UInt32 × UInt32) : Bytes :=
  Word.bytes32 pair.1 ++ Word.bytes32 pair.2

theorem length_words (words : List UInt32) :
    (words.flatMap Word.bytes32).length = 4 * words.length := by
  induction words with
  | nil => rfl
  | cons word words ih =>
      rw [List.flatMap_cons, List.length_append, ih, Word.length_bytes32, List.length_cons]
      omega

theorem length_keyed (pairs : List (UInt32 × UInt32)) :
    (pairs.flatMap keyedBytes).length = 8 * pairs.length := by
  induction pairs with
  | nil => rfl
  | cons pair pairs ih =>
      rw [List.flatMap_cons, List.length_append, ih, keyedBytes, List.length_append,
        Word.length_bytes32, Word.length_bytes32, List.length_cons]
      omega

/-- Bytes in fours are words. -/
theorem exists_words {count : Nat} {bytes : Bytes} (size : bytes.length = 4 * count) :
    ∃ words : List UInt32, words.length = count ∧ bytes = words.flatMap Word.bytes32 := by
  induction count generalizing bytes with
  | zero => exact ⟨[], rfl, List.eq_nil_of_length_eq_zero size⟩
  | succ count ih =>
      match bytes, size with
      | b3 :: b2 :: b1 :: b0 :: rest, size =>
          obtain ⟨words, rfl, rfl⟩ := ih (show rest.length = 4 * count by
            simp only [List.length_cons] at size
            omega)
          exact ⟨Word.of32 b3 b2 b1 b0 :: words, rfl, by
            rw [List.flatMap_cons, Word.bytes32_of32]
            rfl⟩

/-- An even number of words are keys with their offsets. -/
theorem exists_pairs {count : Nat} {words : List UInt32} (size : words.length = 2 * count) :
    ∃ pairs : List (UInt32 × UInt32), pairs.length = count ∧
      words.flatMap Word.bytes32 = pairs.flatMap keyedBytes := by
  induction count generalizing words with
  | zero =>
      obtain rfl := List.eq_nil_of_length_eq_zero size
      exact ⟨[], rfl, rfl⟩
  | succ count ih =>
      match words, size with
      | key :: offset :: rest, size =>
          obtain ⟨pairs, rfl, same⟩ := ih (show rest.length = 2 * count by
            simp only [List.length_cons] at size
            omega)
          exact ⟨(key, offset) :: pairs, rfl, by
            rw [List.flatMap_cons, List.flatMap_cons, List.flatMap_cons, same, keyedBytes,
              List.append_assoc]⟩

namespace Instruction

theorem signedWordsOnto_words (done : List Int) (words : List UInt32) (back : Bytes) :
    signedWordsOnto done words.length (words.flatMap Word.bytes32 ++ back) =
      done.reverse ++ words.map Word.signed32 := by
  induction words generalizing done with
  | nil => rw [List.length_nil, signedWordsOnto.eq_2 _ _ _ (by simp), List.map_nil, List.append_nil]
  | cons word words ih =>
      rw [List.length_cons, List.flatMap_cons, List.append_assoc]
      simp only [Word.bytes32, List.cons_append, List.nil_append, signedWordsOnto]
      rw [Word.of32_bytes, ih, List.map_cons, List.reverse_cons, List.append_assoc,
        List.singleton_append]

theorem signedPairsOnto_keyed (done : List Int) (pairs : List (UInt32 × UInt32)) (back : Bytes) :
    signedPairsOnto done pairs.length (pairs.flatMap keyedBytes ++ back) =
      done.reverse ++ pairs.map fun pair => Word.signed32 pair.2 := by
  induction pairs generalizing done with
  | nil => rw [List.length_nil, signedPairsOnto.eq_2 _ _ _ (by simp), List.map_nil, List.append_nil]
  | cons pair pairs ih =>
      rw [List.length_cons, List.flatMap_cons, List.append_assoc]
      simp only [keyedBytes, Word.bytes32, List.cons_append, List.nil_append, signedPairsOnto]
      rw [Word.of32_bytes, ih, List.map_cons, List.reverse_cons, List.append_assoc,
        List.singleton_append]

end Instruction

/-! ### Switches -/

/-- A switch: where to go if no key matches, and the keys with where to go for each. -/
inductive Switch where
  /-- The keys are the numbers from one bound to the other. -/
  | table (fallback low high : UInt32) (offsets : List UInt32)
  /-- Each key stands with its offset. -/
  | lookup (fallback : UInt32) (pairs : List (UInt32 × UInt32))

namespace Switch

def opcode : Switch → UInt8
  | table .. => Opcode.tableswitch
  | lookup .. => Opcode.lookupswitch

/-- The operands behind the padding. -/
def body : Switch → Bytes
  | table fallback low high offsets =>
    Word.bytes32 fallback ++ (Word.bytes32 low ++ (Word.bytes32 high ++
      offsets.flatMap Word.bytes32))
  | lookup fallback pairs =>
    Word.bytes32 fallback ++ (Word.count32 pairs.length ++ pairs.flatMap keyedBytes)

/-- The bounds are in order and there is an offset for each number between them; the count
of pairs is a nonnegative signed word. -/
def Fits : Switch → Prop
  | table _ low high offsets =>
    Word.signed32 low ≤ Word.signed32 high ∧
      (offsets.length : Int) = Word.signed32 high - Word.signed32 low + 1
  | lookup _ pairs => pairs.length < 2147483648

/-- The default offset, then the others in order. -/
def offsets : Switch → List UInt32
  | table fallback _ _ offsets => fallback :: offsets
  | lookup fallback pairs => fallback :: pairs.map Prod.snd

/-- How many bytes the opcode and the operands take, the padding aside. -/
def size : Switch → Nat
  | table _ _ _ offsets => 1 + 12 + 4 * offsets.length
  | lookup _ pairs => 1 + 8 + 8 * pairs.length

/-- The padding reaches from behind the opcode to the next multiple of four. -/
def Pads (padding : Bytes) (position : Nat) : Prop :=
  padding.length < 4 ∧ (position + 1 + padding.length) % 4 = 0

/-- The switch stands in the code at the position, with this padding. -/
def LaidOut (switch : Switch) (padding code : Bytes) (position : Nat) : Prop :=
  switch.Fits ∧ Pads padding position ∧
    ∃ before after, before.length = position ∧
      code = before ++ switch.opcode :: (padding ++ (switch.body ++ after))

/-- The switch as an instruction. -/
def toInstruction (switch : Switch) (padding : Bytes) (position : Nat) : Instruction :=
  ⟨position, switch.opcode, padding ++ switch.body⟩

/-- Where the switch may go: the default target, then the others in order. -/
def targets (switch : Switch) (position : Nat) : List Int :=
  switch.offsets.map fun offset => (position : Int) + Word.signed32 offset

theorem pads_iff {padding : Bytes} {position : Nat} :
    Pads padding position ↔ padding.length = Instruction.switchPadding position := by
  unfold Pads Instruction.switchPadding
  omega

theorem length_body (switch : Switch) : 1 + switch.body.length = switch.size := by
  cases switch with
  | table =>
      simp only [body, size, List.length_append, Word.length_bytes32, length_words]
      omega
  | lookup =>
      simp only [body, size, List.length_append, Word.length_bytes32, Word.length_count32,
        length_keyed]
      omega

theorem length_toInstruction (switch : Switch) (padding : Bytes) (position : Nat) :
    (switch.toInstruction padding position).length = padding.length + switch.size := by
  rw [Instruction.length, toInstruction, List.length_append, ← length_body]
  omega

/-- The count of pairs is read back as a signed word, if the top bit is not needed. -/
theorem signed32_ofNat {count : Nat} (room : count < 2147483648) :
    Word.signed32 (UInt32.ofNat count) = count := by
  rw [Word.signed32, Word.toNat_ofNat32 (by omega), if_pos room]

/-- A nonnegative signed word is a count with the top bit unused. -/
theorem ofNat_of_signed32_nonneg {word : UInt32} (nonneg : 0 ≤ Word.signed32 word) :
    (Word.signed32 word).toNat < 2147483648 ∧
      UInt32.ofNat (Word.signed32 word).toNat = word := by
  have bound := word.toNat_lt
  unfold Word.signed32 at nonneg ⊢
  split at nonneg
  next small =>
    rw [if_pos small, Int.toNat_natCast, UInt32.ofNat_toNat]
    exact ⟨small, rfl⟩
  next => omega

/-! ### Laid out is decoded -/

section Headers

variable {padding : Bytes} {position : Nat}

/-- The three words in front of the offsets are read behind the padding. -/
theorem header_table (fallback low high : UInt32) (back : Bytes) :
    let body := Word.bytes32 fallback ++ (Word.bytes32 low ++ (Word.bytes32 high ++ back))
    Bytes.signedWordAt? body 0 = some (Word.signed32 fallback) ∧
      Bytes.signedWordAt? body 4 = some (Word.signed32 low) ∧
      Bytes.signedWordAt? body 8 = some (Word.signed32 high) := by
  refine ⟨Bytes.signedWordAt?_length [] fallback _,
    Bytes.signedWordAt?_length (Word.bytes32 fallback) low _, ?_⟩
  rw [← List.append_assoc]
  exact Bytes.signedWordAt?_length (Word.bytes32 fallback ++ Word.bytes32 low) high back

theorem header_lookup (fallback count : UInt32) (back : Bytes) :
    let body := Word.bytes32 fallback ++ (Word.bytes32 count ++ back)
    Bytes.signedWordAt? body 0 = some (Word.signed32 fallback) ∧
      Bytes.signedWordAt? body 4 = some (Word.signed32 count) :=
  ⟨Bytes.signedWordAt?_length [] fallback _,
    Bytes.signedWordAt?_length (Word.bytes32 fallback) count back⟩

theorem operandCount_table (pads : Pads padding position) (fallback low high : UInt32)
    (back : Bytes) :
    Instruction.operandCount position Opcode.tableswitch (padding ++ (Word.bytes32 fallback ++
        (Word.bytes32 low ++ (Word.bytes32 high ++ back)))) =
      if Word.signed32 high < Word.signed32 low then
        .error (.invalidOpcode Opcode.tableswitch position)
      else .ok (padding.length + 12 + 4 * (Word.signed32 high - Word.signed32 low + 1).toNat) := by
  obtain ⟨-, lowFound, highFound⟩ := header_table fallback low high back
  unfold Instruction.operandCount
  dsimp only
  rw [if_pos rfl, ← pads_iff.mp pads, List.drop_left, lowFound, highFound]

theorem operandCount_lookup (pads : Pads padding position) (fallback count : UInt32)
    (back : Bytes) :
    Instruction.operandCount position Opcode.lookupswitch (padding ++ (Word.bytes32 fallback ++
        (Word.bytes32 count ++ back))) =
      if Word.signed32 count < 0 then .error (.invalidOpcode Opcode.lookupswitch position)
      else .ok (padding.length + 8 + 8 * (Word.signed32 count).toNat) := by
  obtain ⟨-, found⟩ := header_lookup fallback count back
  unfold Instruction.operandCount
  dsimp only
  rw [if_neg (by decide), if_pos rfl, ← pads_iff.mp pads, List.drop_left, found]

end Headers

/-- A switch that is laid out is a whole instruction. -/
theorem isWhole_toInstruction {switch : Switch} {padding : Bytes} {position : Nat}
    (fits : switch.Fits) (pads : Pads padding position) :
    (switch.toInstruction padding position).IsWhole := by
  have size := switch.length_body
  rw [Instruction.isWhole_iff, toInstruction, List.length_append]
  cases switch with
  | table fallback low high offsets =>
      obtain ⟨ordered, counted⟩ := fits
      refine (operandCount_table pads fallback low high _).trans ?_
      rw [if_neg (Int.not_lt.mpr ordered), ← counted, Int.toNat_natCast, Except.ok.injEq]
      simp only [Switch.size] at size
      omega
  | lookup fallback pairs =>
      refine (operandCount_lookup pads fallback (UInt32.ofNat pairs.length) _).trans ?_
      rw [signed32_ofNat fits, if_neg (by omega), Int.toNat_natCast, Except.ok.injEq]
      simp only [Switch.size] at size
      omega

/-- The offsets found in the operands are the switch's own, in order. -/
theorem tableOffsets_body {fallback low high : UInt32} {offsets : List UInt32}
    (fits : Fits (table fallback low high offsets)) :
    Instruction.tableOffsets (body (table fallback low high offsets)) =
      (fallback :: offsets).map Word.signed32 := by
  obtain ⟨-, counted⟩ := fits
  obtain ⟨fallbackFound, lowFound, highFound⟩ :=
    header_table fallback low high (offsets.flatMap Word.bytes32)
  have listed := Instruction.signedWordsOnto_words [] offsets []
  rw [List.append_nil, List.reverse_nil, List.nil_append] at listed
  rw [Instruction.tableOffsets, body, fallbackFound, lowFound, highFound]
  dsimp only [Option.getD_some]
  rw [← counted, Int.toNat_natCast]
  exact congrArg (Word.signed32 fallback :: ·) listed

theorem lookupOffsets_body {fallback : UInt32} {pairs : List (UInt32 × UInt32)}
    (fits : Fits (lookup fallback pairs)) :
    Instruction.lookupOffsets (body (lookup fallback pairs)) =
      (fallback :: pairs.map Prod.snd).map Word.signed32 := by
  obtain ⟨fallbackFound, found⟩ :=
    header_lookup fallback (UInt32.ofNat pairs.length) (pairs.flatMap keyedBytes)
  have listed := Instruction.signedPairsOnto_keyed [] pairs []
  rw [List.append_nil, List.reverse_nil, List.nil_append] at listed
  rw [Instruction.lookupOffsets, body, Word.count32, fallbackFound, found]
  dsimp only [Option.getD_some]
  rw [signed32_ofNat fits, Int.toNat_natCast, List.map_cons, List.map_map]
  exact congrArg (Word.signed32 fallback :: ·) listed

/-- The targets of a switch that is laid out are its own. -/
theorem targets_toInstruction {switch : Switch} {padding : Bytes} {position : Nat}
    (fits : switch.Fits) (pads : Pads padding position) :
    (switch.toInstruction padding position).targets = switch.targets position := by
  have found : Instruction.branchOffsets position switch.opcode (padding ++ switch.body) =
      switch.offsets.map Word.signed32 := by
    unfold Instruction.branchOffsets
    rw [← pads_iff.mp pads, List.drop_left]
    cases switch with
    | table => exact tableOffsets_body fits
    | lookup => exact lookupOffsets_body fits
  rw [Instruction.targets, Instruction.branchTargets, toInstruction]
  dsimp only
  rw [found, List.map_map, targets]
  rfl

/-! ### Decoded is laid out -/

/-- Operands with room for the padding and some words are just these. -/
theorem exists_padding_words {position words : Nat} {operands : Bytes}
    (size : operands.length = Instruction.switchPadding position + 4 * words) :
    ∃ (padding : Bytes) (run : List UInt32), Pads padding position ∧ run.length = words ∧
      operands = padding ++ run.flatMap Word.bytes32 := by
  have rest : (operands.drop (Instruction.switchPadding position)).length = 4 * words := by
    rw [List.length_drop]
    omega
  obtain ⟨run, counted, same⟩ := exists_words rest
  refine ⟨operands.take (Instruction.switchPadding position), run, pads_iff.mpr ?_, counted, ?_⟩
  · rw [List.length_take]
    omega
  · rw [← same, List.take_append_drop]

theorem exists_table_of_isWhole {position : Nat} {operands : Bytes}
    (whole : (Instruction.mk position Opcode.tableswitch operands).IsWhole) :
    ∃ switch padding, Fits switch ∧ Pads padding position ∧
      ⟨position, Opcode.tableswitch, operands⟩ = switch.toInstruction padding position := by
  obtain ⟨low, high, ordered, lowFound, highFound, size⟩ := whole.tableswitch rfl
  dsimp only at lowFound highFound size
  obtain ⟨padding, run, pads, counted, rfl⟩ :=
    exists_padding_words (show operands.length = Instruction.switchPadding position +
      4 * ((high - low + 1).toNat + 3) by omega)
  -- The words that were read as the bounds are those that the operands hold there.
  match run, counted with
  | fallback :: lowWord :: highWord :: offsets, counted =>
      rw [← pads_iff.mp pads, List.drop_left] at lowFound highFound
      obtain ⟨-, lowThere, highThere⟩ :=
        header_table fallback lowWord highWord (offsets.flatMap Word.bytes32)
      cases lowThere.symm.trans lowFound
      cases highThere.symm.trans highFound
      refine ⟨table fallback lowWord highWord offsets, padding, ⟨ordered, ?_⟩, pads, rfl⟩
      simp only [List.length_cons] at counted
      omega

theorem exists_lookup_of_isWhole {position : Nat} {operands : Bytes}
    (whole : (Instruction.mk position Opcode.lookupswitch operands).IsWhole) :
    ∃ switch padding, Fits switch ∧ Pads padding position ∧
      ⟨position, Opcode.lookupswitch, operands⟩ = switch.toInstruction padding position := by
  obtain ⟨pairCount, nonneg, found, size⟩ := whole.lookupswitch rfl
  dsimp only at found size
  obtain ⟨padding, run, pads, counted, rfl⟩ :=
    exists_padding_words (show operands.length = Instruction.switchPadding position +
      4 * (2 * pairCount.toNat + 2) by omega)
  match run, counted with
  | fallback :: countWord :: words, counted =>
      rw [← pads_iff.mp pads, List.drop_left] at found
      obtain ⟨-, there⟩ := header_lookup fallback countWord (words.flatMap Word.bytes32)
      cases there.symm.trans found
      have even : words.length = 2 * (Word.signed32 countWord).toNat := by
        simp only [List.length_cons] at counted
        omega
      obtain ⟨pairs, pairsCounted, same⟩ := exists_pairs even
      obtain ⟨small, countWord_eq⟩ := ofNat_of_signed32_nonneg nonneg
      rw [← pairsCounted] at small countWord_eq
      refine ⟨lookup fallback pairs, padding, small, pads, ?_⟩
      rw [toInstruction, body, ← same, Word.count32, countWord_eq]
      rfl

/-- A whole instruction with the opcode of a switch is a switch that is laid out. -/
theorem exists_of_isWhole {instruction : Instruction} (whole : instruction.IsWhole)
    (isSwitch : instruction.opcode = Opcode.tableswitch ∨
      instruction.opcode = Opcode.lookupswitch) :
    ∃ switch padding, Fits switch ∧ Pads padding instruction.offset ∧
      instruction = switch.toInstruction padding instruction.offset := by
  obtain ⟨position, opcode, operands⟩ := instruction
  dsimp only at isSwitch
  rcases isSwitch with rfl | rfl
  · exact exists_table_of_isWhole whole
  · exact exists_lookup_of_isWhole whole

theorem opcode_cases (switch : Switch) :
    switch.opcode = Opcode.tableswitch ∨ switch.opcode = Opcode.lookupswitch := by
  cases switch with
  | table => exact .inl rfl
  | lookup => exact .inr rfl

/-- Bytes are decoded to a switch exactly where one is laid out. -/
theorem decode_eq_ok_iff_laidOut {code : Bytes} {position : Nat} {instruction : Instruction}
    (isSwitch : instruction.opcode = Opcode.tableswitch ∨
      instruction.opcode = Opcode.lookupswitch) :
    Instruction.decode code position = .ok instruction ↔
      ∃ switch padding, LaidOut switch padding code position ∧
        instruction = switch.toInstruction padding position := by
  rw [Instruction.decode_eq_ok_iff]
  constructor
  · rintro ⟨rfl, whole, after, there⟩
    obtain ⟨switch, padding, fits, pads, same⟩ := exists_of_isWhole whole isSwitch
    have inside : instruction.offset < code.length := by
      rw [← List.drop_eq_nil_iff.not.trans Nat.not_le, there]
      exact List.cons_ne_nil _ _
    refine ⟨switch, padding, ⟨fits, pads, code.take instruction.offset, after,
      List.length_take_of_le (Nat.le_of_lt inside), ?_⟩, same⟩
    rw [← List.append_assoc padding]
    calc code = code.take instruction.offset ++ code.drop instruction.offset :=
          (List.take_append_drop _ code).symm
      _ = code.take instruction.offset ++
            instruction.opcode :: (instruction.operands ++ after) := by rw [there]
      _ = _ := by rw [same]; rfl
  · rintro ⟨switch, padding, ⟨fits, pads, before, after, rfl, rfl⟩, rfl⟩
    refine ⟨rfl, isWhole_toInstruction fits pads, after, ?_⟩
    rw [List.drop_left, toInstruction, List.append_assoc]

/-- What an instruction with a faulty operand count decodes to is the fault. -/
theorem decode_eq_error {before following : Bytes} {opcode : UInt8} {fault : ClassFileError}
    (refused : Instruction.operandCount before.length opcode following = .error fault) :
    Instruction.decode (before ++ opcode :: following) before.length = .error fault := by
  rw [Instruction.decode, List.drop_left]
  dsimp only
  rw [Instruction.ofBytes, refused]

/-- The targets found from anywhere behind the opcode are those of the switch. -/
theorem branchTargets_of_laidOut {switch : Switch} {padding code : Bytes} {position : Nat}
    (laidOut : LaidOut switch padding code position) :
    Instruction.branchTargets position switch.opcode (code.drop (position + 1)) =
      switch.targets position := by
  obtain ⟨fits, pads, before, after, rfl, rfl⟩ := laidOut
  have whole := isWhole_toInstruction fits pads
  have following : (before ++ switch.opcode :: (padding ++ (switch.body ++ after))).drop
      (before.length + 1) = (padding ++ switch.body) ++ after := by
    rw [← List.drop_drop, List.drop_left, List.drop_succ_cons, List.drop_zero, List.append_assoc]
  rw [following]
  exact (whole.branchTargets_append after).trans (targets_toInstruction fits pads)

/-- Wherever a switch is laid out, whatever stands before and behind it and in its padding,
it is decoded as one instruction of its own length, whose targets are the default target and
one for each key, in order. Nothing else is decoded as a switch, so no target is missing.
Bounds in the wrong order and negative counts are refused. -/
theorem switch_decode_exact :
    (∀ (switch : Switch) (padding code : Bytes) (position : Nat),
      LaidOut switch padding code position →
      Instruction.decode code position = .ok (switch.toInstruction padding position) ∧
      (switch.toInstruction padding position).length = padding.length + switch.size ∧
      Instruction.branchTargets position switch.opcode (code.drop (position + 1)) =
        switch.targets position) ∧
    (∀ (code : Bytes) (position : Nat) (instruction : Instruction),
      Instruction.decode code position = .ok instruction →
      instruction.opcode = Opcode.tableswitch ∨ instruction.opcode = Opcode.lookupswitch →
      ∃ switch padding, LaidOut switch padding code position ∧
        instruction = switch.toInstruction padding position ∧
        Instruction.branchTargets position instruction.opcode (code.drop (position + 1)) =
          switch.targets position) ∧
    (∀ (before padding after : Bytes) (fallback low high : UInt32),
      Pads padding before.length → Word.signed32 high < Word.signed32 low →
      Instruction.decode (before ++ Opcode.tableswitch :: (padding ++ (Word.bytes32 fallback ++
          (Word.bytes32 low ++ (Word.bytes32 high ++ after))))) before.length =
        .error (.invalidOpcode Opcode.tableswitch before.length)) ∧
    ∀ (before padding after : Bytes) (fallback count : UInt32),
      Pads padding before.length → Word.signed32 count < 0 →
      Instruction.decode (before ++ Opcode.lookupswitch :: (padding ++ (Word.bytes32 fallback ++
          (Word.bytes32 count ++ after)))) before.length =
        .error (.invalidOpcode Opcode.lookupswitch before.length) := by
  refine ⟨?_, ?_, ?_, ?_⟩
  · intro switch padding code position laidOut
    exact ⟨(decode_eq_ok_iff_laidOut switch.opcode_cases).mpr ⟨switch, padding, laidOut, rfl⟩,
      switch.length_toInstruction padding position, branchTargets_of_laidOut laidOut⟩
  · intro code position instruction success isSwitch
    obtain ⟨switch, padding, laidOut, rfl⟩ := (decode_eq_ok_iff_laidOut isSwitch).mp success
    exact ⟨switch, padding, laidOut, rfl, branchTargets_of_laidOut laidOut⟩
  · intro before padding after fallback low high pads reversed
    apply decode_eq_error
    rw [operandCount_table pads, if_pos reversed]
  · intro before padding after fallback count pads negative
    apply decode_eq_error
    rw [operandCount_lookup pads, if_pos negative]

/-- A table switch with two keys, behind one other byte and before another. -/
theorem switch_decode_exact_twoKeys :
    let switch := table 20 0 1 [23, 23]
    let code : Bytes := [0x1A, 0xAA, 0, 0, 0, 0, 0, 20, 0, 0, 0, 0, 0, 0, 0, 1, 0, 0, 0, 23,
      0, 0, 0, 23, 0xB1]
    LaidOut switch [0, 0] code 1 ∧
      Instruction.decode code 1 = .ok (switch.toInstruction [0, 0] 1) ∧
      Instruction.branchTargets 1 Opcode.tableswitch (code.drop 2) = [21, 24, 24] := by
  intro switch code
  have laidOut : LaidOut switch [0, 0] code 1 :=
    ⟨⟨by decide, by decide⟩, ⟨by decide, by decide⟩, [0x1A], [0xB1], rfl, by decide⟩
  obtain ⟨decoded, -, found⟩ := switch_decode_exact.1 switch [0, 0] code 1 laidOut
  exact ⟨laidOut, decoded, found⟩

end Switch

end Lookout
