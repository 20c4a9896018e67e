/-
# Stack map tables

A stack map table records, for some offsets in a code array, what the locals
and the operand stack hold there. Each frame stands a delta behind the one
before it; only the first delta is an offset of its own. An uninitialized
value is named by the offset of the instruction that created it.
-/

import Lookout.Bytes

namespace Lookout

/-- What a local variable or stack entry holds. -/
inductive VerificationType where
  | top
  | integer
  | float
  | double
  | long
  | null
  | uninitializedThis
  /-- An instance of the class with this pool index. -/
  | object (classIndex : UInt16)
  /-- A value created at this offset and not initialized yet. -/
  | uninitialized (offset : UInt16)
  deriving DecidableEq

/-- What changes from the frame before to this one. -/
inductive StackMapFrame where
  /-- The same locals, and an empty stack. -/
  | same (delta : UInt16)
  /-- The same locals, and one stack entry. -/
  | sameLocalsOneStackItem (delta : UInt16) (stack : VerificationType)
  /-- The last `count` locals are gone, and the stack is empty. -/
  | chop (delta : UInt16) (count : UInt8)
  /-- More locals, and an empty stack. -/
  | append (delta : UInt16) (locals : List VerificationType)
  /-- All locals and stack entries, spelled out. -/
  | full (delta : UInt16) (locals stack : List VerificationType)
  deriving DecidableEq

namespace StackMapFrame

/-- How far behind the frame before it stands. -/
def delta : StackMapFrame → UInt16
  | .same delta => delta
  | .sameLocalsOneStackItem delta _ => delta
  | .chop delta _ => delta
  | .append delta _ => delta
  | .full delta _ _ => delta

/-- The same frame with another delta. -/
def withDelta (delta : UInt16) : StackMapFrame → StackMapFrame
  | .same _ => .same delta
  | .sameLocalsOneStackItem _ stack => .sameLocalsOneStackItem delta stack
  | .chop _ count => .chop delta count
  | .append _ locals => .append delta locals
  | .full _ locals stack => .full delta locals stack

/-- The types that the frame mentions: locals first, then stack. -/
def types : StackMapFrame → List VerificationType
  | .same _ => []
  | .sameLocalsOneStackItem _ stack => [stack]
  | .chop _ _ => []
  | .append _ locals => locals
  | .full _ locals stack => locals ++ stack

end StackMapFrame

/-- The frames of a method, in code order. -/
structure StackMapTable where
  frames : List StackMapFrame
  deriving DecidableEq

namespace StackMapTable

/-- The offsets of frames that follow a frame at `previous`, behind the offsets
already `done`, which are kept in reverse. -/
def laterOffsetsOnto : List Nat → Nat → List StackMapFrame → List Nat
  | done, _, [] => done.reverse
  | done, previous, frame :: later =>
    let offset := previous + frame.delta.toNat + 1
    laterOffsetsOnto (offset :: done) offset later

/-- The code offset of every frame. -/
def offsets (table : StackMapTable) : List Nat :=
  match table.frames with
  | [] => []
  | first :: later => laterOffsetsOnto [first.delta.toNat] first.delta.toNat later

end StackMapTable

end Lookout
