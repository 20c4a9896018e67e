/-
# Words and their bytes

Writing a word and putting its bytes together again gives the word back, and
the bytes that make up a word are the ones it is written as. Both directions
are needed: the first reads what was written, the second tells from a value
that was read which bytes were there.
-/

import Lookout.Bytes

namespace Lookout.Word

/-- The bytes of a word make up the word. -/
@[simp]
theorem of16_bytes (word : UInt16) :
    of16 (UInt8.ofNat (word.toNat / 256)) (UInt8.ofNat word.toNat) = word := by
  have bound := word.toNat_lt
  apply UInt16.toNat.inj
  simp only [of16, UInt16.toNat_ofNat', UInt8.toNat_ofNat']
  omega

/-- The bytes of a 32 bit word make up the word. -/
@[simp]
theorem of32_bytes (word : UInt32) :
    of32 (UInt8.ofNat (word.toNat / 16777216)) (UInt8.ofNat (word.toNat / 65536))
      (UInt8.ofNat (word.toNat / 256)) (UInt8.ofNat word.toNat) = word := by
  have bound := word.toNat_lt
  apply UInt32.toNat.inj
  simp only [of32, UInt32.toNat_ofNat', UInt8.toNat_ofNat']
  omega

/-- The halves of a 64 bit word make up the word. -/
@[simp]
theorem of64_halves (word : UInt64) :
    of64 (UInt32.ofNat (word.toNat / 4294967296)) (UInt32.ofNat word.toNat) = word := by
  have bound := word.toNat_lt
  apply UInt64.toNat.inj
  simp only [of64, UInt64.toNat_ofNat', UInt32.toNat_ofNat']
  omega

/-- A word is written as the bytes that it was made of. -/
@[simp]
theorem bytes16_of16 (high low : UInt8) : bytes16 (of16 high low) = [high, low] := by
  have highBound := high.toNat_lt
  have lowBound := low.toNat_lt
  simp only [bytes16, of16, UInt16.toNat_ofNat', List.cons.injEq, and_true]
  constructor <;> apply UInt8.toNat.inj <;> simp only [UInt8.toNat_ofNat'] <;> omega

/-- A 32 bit word is written as the bytes that it was made of. -/
@[simp]
theorem bytes32_of32 (b3 b2 b1 b0 : UInt8) : bytes32 (of32 b3 b2 b1 b0) = [b3, b2, b1, b0] := by
  have bound3 := b3.toNat_lt
  have bound2 := b2.toNat_lt
  have bound1 := b1.toNat_lt
  have bound0 := b0.toNat_lt
  simp only [bytes32, of32, UInt32.toNat_ofNat', List.cons.injEq, and_true]
  refine ⟨?_, ?_, ?_, ?_⟩ <;> apply UInt8.toNat.inj <;> simp only [UInt8.toNat_ofNat'] <;> omega

/-- A 64 bit word is written as the halves that it was made of. -/
@[simp]
theorem bytes64_of64 (high low : UInt32) :
    bytes64 (of64 high low) = bytes32 high ++ bytes32 low := by
  have highBound := high.toNat_lt
  have lowBound := low.toNat_lt
  have highHalf : UInt32.ofNat ((of64 high low).toNat / 4294967296) = high := by
    apply UInt32.toNat.inj
    simp only [of64, UInt64.toNat_ofNat', UInt32.toNat_ofNat']
    omega
  have lowHalf : UInt32.ofNat (of64 high low).toNat = low := by
    apply UInt32.toNat.inj
    simp only [of64, UInt64.toNat_ofNat', UInt32.toNat_ofNat']
    omega
  rw [bytes64, highHalf, lowHalf]

/-- The word at the front of a written word is that word. -/
theorem word16?_bytes16 (word : UInt16) : Bytes.word16? (bytes16 word) = some word := by
  rw [bytes16, Bytes.word16?, of16_bytes]

theorem bytes16_injective : Function.Injective bytes16 := by
  intro first second same
  have words := congrArg Bytes.word16? same
  rw [word16?_bytes16, word16?_bytes16] at words
  exact Option.some.inj words

@[simp]
theorem length_bytes16 (word : UInt16) : (bytes16 word).length = 2 := rfl

@[simp]
theorem length_bytes32 (word : UInt32) : (bytes32 word).length = 4 := rfl

@[simp]
theorem length_bytes64 (word : UInt64) : (bytes64 word).length = 8 := rfl

@[simp]
theorem length_count16 (count : Nat) : (count16 count).length = 2 := rfl

@[simp]
theorem length_count32 (count : Nat) : (count32 count).length = 4 := rfl

/-- A word that fits one byte is read back from that byte. -/
theorem toUInt16_toUInt8 {word : UInt16} (short : word ≤ 255) : word.toUInt8.toUInt16 = word := by
  rw [UInt16.le_iff_toNat_le] at short
  rw [← UInt16.toNat_inj]
  simp at short ⊢
  omega

/-- A count that is read back is the count that was written, if it has room. -/
theorem toNat_ofNat16 {count : Nat} (room : count < 65536) :
    (UInt16.ofNat count).toNat = count := by
  rw [UInt16.toNat_ofNat']
  omega

/-- A length that is read back is the length that was written, if it has room. -/
theorem toNat_ofNat32 {count : Nat} (room : count < 4294967296) :
    (UInt32.ofNat count).toNat = count := by
  rw [UInt32.toNat_ofNat']
  omega

theorem toNat_succ16 (word : UInt16) : (succ16 word).toNat = min 65535 (word.toNat + 1) := by
  by_cases last : word = 65535
  · rw [succ16, if_pos last, last]
    rfl
  · have bound := word.toNat_lt
    have notLast : word.toNat ≠ 65535 := fun same => last (UInt16.toNat_inj.mp same)
    have room : (word + 1).toNat = word.toNat + 1 := by
      rw [UInt16.toNat_add, UInt16.toNat_one]
      omega
    rw [succ16, if_neg last, room]
    omega

/-- The larger of two words is the larger number. -/
theorem toNat_max16 (first second : UInt16) :
    (max first second).toNat = max first.toNat second.toNat := by
  have larger : max first second = if first ≤ second then second else first := rfl
  rw [larger, apply_ite UInt16.toNat, Nat.max_def]
  simp only [UInt16.le_iff_toNat_le]

theorem ofNat16_le_iff {number : Nat} {word : UInt16} :
    UInt16.ofNat number ≤ word ↔ number % 65536 ≤ word.toNat := by
  rw [UInt16.le_iff_toNat_le, UInt16.toNat_ofNat']

/-- Taking away no more than there is and adding afterwards, modulo 65536. -/
theorem toNat_sub_add_ofNat16 {word : UInt16} {taken : Nat}
    (enough : UInt16.ofNat taken ≤ word) (put : Nat) :
    (word - UInt16.ofNat taken + UInt16.ofNat put).toNat =
      (word.toNat - taken % 65536 + put) % 65536 := by
  rw [UInt16.toNat_add, UInt16.toNat_sub_of_le _ _ enough, UInt16.toNat_ofNat',
    UInt16.toNat_ofNat', Nat.add_mod_mod]

/-- The count field of as many things as a word counts is that word. -/
@[simp]
theorem count16_toNat (word : UInt16) : count16 word.toNat = bytes16 word := by
  rw [count16, UInt16.ofNat_toNat]

/-- The length field of as many things as a word counts is that word. -/
@[simp]
theorem count32_toNat (word : UInt32) : count32 word.toNat = bytes32 word := by
  rw [count32, UInt32.ofNat_toNat]

end Lookout.Word
