/-
# Branch targets

Where an instruction may send control, besides to the instruction behind it.
The targets are computed from whatever bytes are at hand: an offset that is
not wholly there yields no target. For a decoded instruction all of them are.
-/

import Lookout.Instruction.Basic

namespace Lookout

namespace Instruction

/-- The first `count` signed words in the bytes, as far as they are there, behind
those already `done`, which are kept in reverse. -/
def signedWordsOnto : List Int → Nat → Bytes → List Int
  | done, count + 1, b3 :: b2 :: b1 :: b0 :: rest =>
    signedWordsOnto (Word.signed32 (Word.of32 b3 b2 b1 b0) :: done) count rest
  | done, _, _ => done.reverse

/-- The second signed word of each of the first `count` pairs of words, as far as
they are there, behind those already `done`, which are kept in reverse. -/
def signedPairsOnto : List Int → Nat → Bytes → List Int
  | done, count + 1, _ :: _ :: _ :: _ :: b3 :: b2 :: b1 :: b0 :: rest =>
    signedPairsOnto (Word.signed32 (Word.of32 b3 b2 b1 b0) :: done) count rest
  | done, _, _ => done.reverse

/-- The offsets in a table switch whose operands start the bytes: the default,
then one for each index from low to high. -/
def tableOffsets (body : Bytes) : List Int :=
  let low := (Bytes.signedWordAt? body 4).getD 0
  let high := (Bytes.signedWordAt? body 8).getD (-1)
  (Bytes.signedWordAt? body 0).toList ++
    signedWordsOnto [] (high - low + 1).toNat (body.drop 12)

/-- The offsets in a lookup switch whose operands start the bytes: the default,
then one for each key. -/
def lookupOffsets (body : Bytes) : List Int :=
  let pairs := (Bytes.signedWordAt? body 4).getD 0
  (Bytes.signedWordAt? body 0).toList ++ signedPairsOnto [] pairs.toNat (body.drop 8)

/-- The branch offsets, relative to the instruction, that an opcode at `offset`
finds in the bytes behind it. -/
def branchOffsets (offset : Nat) (opcode : UInt8) (following : Bytes) : List Int :=
  if Opcode.isShortBranch opcode then
    ((Bytes.word16? following).map Word.signed16).toList
  else if Opcode.isLongBranch opcode then
    (Bytes.signedWordAt? following 0).toList
  else if opcode = Opcode.tableswitch then
    tableOffsets (following.drop (switchPadding offset))
  else if opcode = Opcode.lookupswitch then
    lookupOffsets (following.drop (switchPadding offset))
  else []

/-- The absolute offsets that an opcode at `offset` with these bytes behind it may
branch to. They may lie outside the code array. -/
def branchTargets (offset : Nat) (opcode : UInt8) (following : Bytes) : List Int :=
  (branchOffsets offset opcode following).map fun relative => (offset : Int) + relative

/-- The absolute offsets that the instruction may branch to. -/
def targets (instruction : Instruction) : List Int :=
  branchTargets instruction.offset instruction.opcode instruction.operands

end Instruction

end Lookout
