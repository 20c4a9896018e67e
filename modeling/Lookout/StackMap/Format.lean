/-
# Stack map tables in a file

Frames whose delta is at most 63 have one-byte forms for the two commonest
kinds; a larger delta takes an extended form with a two-byte delta. Reading
accepts an extended form with a small delta as well, so what is read may have
been longer than what is written.
-/

import Lookout.Bytes.Cursor
import Lookout.StackMap.Basic

namespace Lookout

/-- The name of the attribute, as reports give it. -/
def StackMapTable.attributeName : String := "StackMapTable"

namespace VerificationType

/-- The type as it is written: a tag, and an index or offset where there is one. -/
def bytes : VerificationType → Bytes
  | .top => [0]
  | .integer => [1]
  | .float => [2]
  | .double => [3]
  | .long => [4]
  | .null => [5]
  | .uninitializedThis => [6]
  | .object classIndex => 7 :: Word.bytes16 classIndex
  | .uninitialized offset => 8 :: Word.bytes16 offset

/-- Read a type. -/
def read : Reader VerificationType := do
  let tag ← Reader.byte
  match tag with
  | 0 => return .top
  | 1 => return .integer
  | 2 => return .float
  | 3 => return .double
  | 4 => return .long
  | 5 => return .null
  | 6 => return .uninitializedThis
  | 7 => return .object (← Reader.word16)
  | 8 => return .uninitialized (← Reader.word16)
  | _ => Reader.fail (.malformedAttribute StackMapTable.attributeName (.unknownVerificationTag tag))

end VerificationType

namespace StackMapFrame

/-- The largest delta that fits into a one-byte form. -/
def maxCompactDelta : UInt16 := 63

/-- The frame as it is written. The kind byte of a chop or append frame counts
down or up from 251. -/
def bytes : StackMapFrame → Bytes
  | .same delta =>
    if delta ≤ maxCompactDelta then [delta.toUInt8]
    else 251 :: Word.bytes16 delta
  | .sameLocalsOneStackItem delta stack =>
    if delta ≤ maxCompactDelta then (64 + delta.toUInt8) :: stack.bytes
    else 247 :: (Word.bytes16 delta ++ stack.bytes)
  | .chop delta count => (251 - count) :: Word.bytes16 delta
  | .append delta locals =>
    (251 + UInt8.ofNat locals.length) ::
      (Word.bytes16 delta ++ locals.flatMap VerificationType.bytes)
  | .full delta locals stack =>
    255 :: (Word.bytes16 delta ++ (Word.count16 locals.length ++
      (locals.flatMap VerificationType.bytes ++ (Word.count16 stack.length ++
        stack.flatMap VerificationType.bytes))))

/-- Read what stands behind the kind byte of a frame. -/
def readBody (kind : UInt8) : Reader StackMapFrame :=
  if kind ≤ 63 then return .same kind.toUInt16
  else if kind ≤ 127 then
    return .sameLocalsOneStackItem (kind - 64).toUInt16 (← VerificationType.read)
  else if kind ≤ 246 then
    Reader.fail (.malformedAttribute StackMapTable.attributeName (.reservedFrameType kind))
  else do
    let delta ← Reader.word16
    if kind = 247 then return .sameLocalsOneStackItem delta (← VerificationType.read)
    else if kind ≤ 250 then return .chop delta (251 - kind)
    else if kind = 251 then return .same delta
    else if kind ≤ 254 then
      return .append delta (← Reader.many (kind - 251).toNat VerificationType.read)
    else do
      let locals ← Reader.table VerificationType.read
      let stack ← Reader.table VerificationType.read
      return .full delta locals stack

/-- Read a frame. -/
def read : Reader StackMapFrame := do
  let kind ← Reader.byte
  readBody kind

end StackMapFrame

namespace StackMapTable

/-- The table as it is written. -/
def bytes (table : StackMapTable) : Bytes :=
  Word.count16 table.frames.length ++ table.frames.flatMap StackMapFrame.bytes

/-- Read a table that takes up all of an attribute. -/
def read : Reader StackMapTable := do
  let frames ← Reader.table StackMapFrame.read
  Reader.attributeEnd attributeName
  return ⟨frames⟩

/-- The table in the body of an attribute. -/
def ofBytes (info : Bytes) : Except ClassFileError StackMapTable :=
  Reader.readAll read info

end StackMapTable

end Lookout
