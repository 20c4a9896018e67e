/-
# Constants

The entries of a constant pool. Text is kept as the bytes found in the file,
so that an entry nobody touches is written back byte for byte; numbers are
kept as raw bits. References to other entries are indices and may dangle.
-/

import Lookout.Bytes.Cursor

namespace Lookout

/-- One entry of a constant pool. -/
inductive Constant where
  /-- Text in modified UTF-8, not necessarily well formed. -/
  | utf8 (bytes : Bytes)
  | integer (bits : UInt32)
  | float (bits : UInt32)
  | long (bits : UInt64)
  | double (bits : UInt64)
  | classInfo (name : UInt16)
  | string (text : UInt16)
  | fieldRef (owner nameAndType : UInt16)
  | methodRef (owner nameAndType : UInt16)
  | interfaceMethodRef (owner nameAndType : UInt16)
  | nameAndType (name descriptor : UInt16)
  | methodHandle (kind : UInt8) (reference : UInt16)
  | methodType (descriptor : UInt16)
  | dynamic (bootstrap nameAndType : UInt16)
  | invokeDynamic (bootstrap nameAndType : UInt16)
  | moduleInfo (name : UInt16)
  | packageInfo (name : UInt16)
  deriving DecidableEq

namespace Constant

/-- The byte that announces the kind of an entry. -/
def tag : Constant → UInt8
  | .utf8 _ => 1
  | .integer _ => 3
  | .float _ => 4
  | .long _ => 5
  | .double _ => 6
  | .classInfo _ => 7
  | .string _ => 8
  | .fieldRef .. => 9
  | .methodRef .. => 10
  | .interfaceMethodRef .. => 11
  | .nameAndType .. => 12
  | .methodHandle .. => 15
  | .methodType _ => 16
  | .dynamic .. => 17
  | .invokeDynamic .. => 18
  | .moduleInfo _ => 19
  | .packageInfo _ => 20

/-- Whether the entry takes two pool indices. Only the 64 bit numbers do. -/
def isWide : Constant → Bool
  | .long _ | .double _ => true
  | _ => false

/-- The bytes behind the tag. -/
def payload : Constant → Bytes
  | .utf8 bytes => Word.count16 bytes.length ++ bytes
  | .integer bits | .float bits => Word.bytes32 bits
  | .long bits | .double bits => Word.bytes64 bits
  | .classInfo index | .string index | .methodType index | .moduleInfo index
  | .packageInfo index => Word.bytes16 index
  | .fieldRef first second | .methodRef first second | .interfaceMethodRef first second
  | .nameAndType first second | .dynamic first second | .invokeDynamic first second =>
    Word.bytes16 first ++ Word.bytes16 second
  | .methodHandle kind reference => kind :: Word.bytes16 reference

/-- The entry as it is written. -/
def bytes (constant : Constant) : Bytes :=
  constant.tag :: constant.payload

/-- Read an entry that consists of two indices. -/
private def readPair (make : UInt16 → UInt16 → Constant) : Reader Constant := do
  let first ← Reader.word16
  let second ← Reader.word16
  return make first second

/-- Read what stands behind the tag of the entry with this pool index. -/
def readPayload (index : UInt16) (tag : UInt8) : Reader Constant :=
  match tag with
  | 1 => do
    let length ← Reader.word16
    return .utf8 (← Reader.take length.toNat)
  | 3 => return .integer (← Reader.word32)
  | 4 => return .float (← Reader.word32)
  | 5 => return .long (← Reader.word64)
  | 6 => return .double (← Reader.word64)
  | 7 => return .classInfo (← Reader.word16)
  | 8 => return .string (← Reader.word16)
  | 9 => readPair .fieldRef
  | 10 => readPair .methodRef
  | 11 => readPair .interfaceMethodRef
  | 12 => readPair .nameAndType
  | 15 => do
    let kind ← Reader.byte
    let reference ← Reader.word16
    return .methodHandle kind reference
  | 16 => return .methodType (← Reader.word16)
  | 17 => readPair .dynamic
  | 18 => readPair .invokeDynamic
  | 19 => return .moduleInfo (← Reader.word16)
  | 20 => return .packageInfo (← Reader.word16)
  | _ => Reader.fail (.unknownConstantTag tag index)

/-- Read the entry with this pool index. -/
def read (index : UInt16) : Reader Constant := do
  let tag ← Reader.byte
  readPayload index tag

end Constant

end Lookout
