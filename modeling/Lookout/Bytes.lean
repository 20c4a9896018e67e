/-
# Big-endian bytes

Every number in a class file is written most significant byte first. This
module holds the byte run that all formats read and write, and the two
directions of the 16, 32 and 64 bit words. The words are computed in natural
number arithmetic, so a statement about them is a statement about quotients
and remainders by powers of 256.
-/

namespace Lookout

/-- A finite run of bytes, first byte first. -/
abbrev Bytes := List UInt8

namespace Word

/-- The word whose two bytes are given, high byte first. -/
def of16 (high low : UInt8) : UInt16 :=
  UInt16.ofNat (high.toNat * 256 + low.toNat)

/-- The word whose four bytes are given, highest byte first. -/
def of32 (b3 b2 b1 b0 : UInt8) : UInt32 :=
  UInt32.ofNat (((b3.toNat * 256 + b2.toNat) * 256 + b1.toNat) * 256 + b0.toNat)

/-- The word whose two halves are given, high half first. -/
def of64 (high low : UInt32) : UInt64 :=
  UInt64.ofNat (high.toNat * 4294967296 + low.toNat)

/-- The two bytes of a word. -/
def bytes16 (word : UInt16) : Bytes :=
  [UInt8.ofNat (word.toNat / 256), UInt8.ofNat word.toNat]

/-- The four bytes of a word. -/
def bytes32 (word : UInt32) : Bytes :=
  [UInt8.ofNat (word.toNat / 16777216), UInt8.ofNat (word.toNat / 65536),
    UInt8.ofNat (word.toNat / 256), UInt8.ofNat word.toNat]

/-- The eight bytes of a word: its high half, then its low half. -/
def bytes64 (word : UInt64) : Bytes :=
  bytes32 (UInt32.ofNat (word.toNat / 4294967296)) ++ bytes32 (UInt32.ofNat word.toNat)

/-- The two bytes of a count. A count field has no room for more than 65535, so
only the remainder modulo 65536 is written. -/
def count16 (count : Nat) : Bytes :=
  bytes16 (UInt16.ofNat count)

/-- The four bytes of a length, written modulo 2^32. -/
def count32 (count : Nat) : Bytes :=
  bytes32 (UInt32.ofNat count)

/-- The next word. The last one is its own next. -/
def succ16 (word : UInt16) : UInt16 :=
  if word = 65535 then word else word + 1

/-- The two's complement reading of a 16 bit word. -/
def signed16 (word : UInt16) : Int :=
  if word.toNat < 32768 then word.toNat else (word.toNat : Int) - 65536

/-- The two's complement reading of a 32 bit word. -/
def signed32 (word : UInt32) : Int :=
  if word.toNat < 2147483648 then word.toNat else (word.toNat : Int) - 4294967296

/-- The two's complement reading of a 64 bit word. -/
def signed64 (word : UInt64) : Int :=
  if word.toNat < 9223372036854775808 then word.toNat
  else (word.toNat : Int) - 18446744073709551616

end Word

namespace Bytes

/-- The 16 bit word at the front, if two bytes are there. -/
def word16? : Bytes → Option UInt16
  | high :: low :: _ => some (Word.of16 high low)
  | _ => none

/-- The 32 bit word at the front, if four bytes are there. -/
def word32? : Bytes → Option UInt32
  | b3 :: b2 :: b1 :: b0 :: _ => some (Word.of32 b3 b2 b1 b0)
  | _ => none

/-- The signed 32 bit word that starts `offset` bytes in, if all of it is there. -/
def signedWordAt? (bytes : Bytes) (offset : Nat) : Option Int :=
  (word32? (bytes.drop offset)).map Word.signed32

end Bytes

end Lookout
