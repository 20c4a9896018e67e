/-
# Moving the frames of a code array

When bytes are inserted in front of a code array, only the first delta of its
frames changes, because every later one counts from the frame before; and each
uninitialized value is created further on. Offsets have 16 bits, and the move
stops at the first one that would not fit. What was moved before stays moved.
-/

import Lookout.CodeOffset
import Lookout.StackMap.Format

namespace Lookout

namespace VerificationType

/-- Move one type on, unless an earlier one could not be moved. The state tells
whether all types so far could be. -/
def shiftWhileFitting (distance : UInt16) (type : VerificationType) :
    StateM Bool VerificationType := do
  if ← get then
    match type with
    | .uninitialized offset =>
      match raisedOffset? offset distance with
      | some raised => return .uninitialized raised
      | none => set false; return type
    | _ => return type
  else return type

end VerificationType

namespace StackMapFrame

/-- Visit the types of a frame in order, locals before stack, and put the results
in their places. -/
def mapTypesM {m : Type → Type} [Monad m] (visit : VerificationType → m VerificationType) :
    StackMapFrame → m StackMapFrame
  | .same delta => return .same delta
  | .sameLocalsOneStackItem delta stack => return .sameLocalsOneStackItem delta (← visit stack)
  | .chop delta count => return .chop delta count
  | .append delta locals => return .append delta (← locals.mapM visit)
  | .full delta locals stack => do
    let locals ← locals.mapM visit
    let stack ← stack.mapM visit
    return .full delta locals stack

end StackMapFrame

namespace StackMapTable

/-- The frames with the first delta raised, if it still fits. -/
def raiseFirst? (distance : UInt16) : List StackMapFrame → Option (List StackMapFrame)
  | [] => some []
  | first :: later =>
    (raisedOffset? first.delta distance).map fun delta => first.withDelta delta :: later

/-- Account for `distance` bytes inserted in front of the code. The table comes
back as far as it could be moved. -/
def shift (table : StackMapTable) (distance : UInt16) :
    Except ClassFileError Unit × StackMapTable :=
  match raiseFirst? distance table.frames with
  | none => (.error (.malformedAttribute attributeName .frameOffsetOverflow), table)
  | some frames =>
    let visit := VerificationType.shiftWhileFitting distance
    match (frames.mapM (StackMapFrame.mapTypesM visit)).run true with
    | (frames, true) => (.ok (), ⟨frames⟩)
    | (frames, false) =>
      (.error (.malformedAttribute attributeName .uninitializedOffsetOverflow), ⟨frames⟩)

end StackMapTable

end Lookout
