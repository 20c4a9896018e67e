/-
# Line and variable tables

Tables that tie offsets in a code array to source lines and to the live ranges
of local variables. They are moved while they are read, so of two faults in a
table the one that comes first in the bytes is reported. Moving by zero
changes nothing, which makes the plain reading of a table a special case.
-/

import Lookout.Bytes.Cursor
import Lookout.CodeOffset

namespace Lookout

/-- The code from `start` on comes from this line. -/
structure LineEntry where
  start : UInt16
  line : UInt16
  deriving DecidableEq

/-- A local variable is live from `start` for `length` bytes of code. The rest of
the entry (name, type and slot) is six bytes that are never looked into. -/
structure VariableRange where
  start : UInt16
  length : UInt16
  details : Bytes
  deriving DecidableEq

namespace LineEntry

/-- The name of the attribute. -/
def attributeName : String := "LineNumberTable"

/-- The entry as it is written. -/
def bytes (entry : LineEntry) : Bytes :=
  Word.bytes16 entry.start ++ Word.bytes16 entry.line

/-- Read an entry and move it on. -/
def readShifted (distance : UInt16) : Reader LineEntry := do
  let start ← Reader.word16
  let start ← Reader.ofExcept (raisedOffset attributeName start distance)
  let line ← Reader.word16
  return ⟨start, line⟩

end LineEntry

namespace VariableRange

/-- The name of the attribute that gives the types of variables by descriptor. -/
def attributeName : String := "LocalVariableTable"

/-- The name of the attribute that gives the types of variables by signature. -/
def typeAttributeName : String := "LocalVariableTypeTable"

/-- The entry as it is written. -/
def bytes (range : VariableRange) : Bytes :=
  Word.bytes16 range.start ++ (Word.bytes16 range.length ++ range.details)

/-- Where a range lies after `distance` bytes were inserted in front of the code.
A range that starts at 0 is widened and not moved: what is live when the method
is entered is live in the inserted bytes too. -/
def shiftedBounds (name : String) (distance start length : UInt16) :
    Except ClassFileError (UInt16 × UInt16) := do
  if start = 0 then
    let length ← raisedOffset name length distance
    return (0, length)
  else
    let start ← raisedOffset name start distance
    return (start, length)

/-- Read an entry of the named table and move it on. -/
def readShifted (name : String) (distance : UInt16) : Reader VariableRange := do
  let start ← Reader.word16
  let length ← Reader.word16
  let (start, length) ← Reader.ofExcept (shiftedBounds name distance start length)
  let details ← Reader.take 6
  return ⟨start, length, details⟩

end VariableRange

namespace DebugTable

/-- The table with these entries as it is written. -/
def bytes {α : Type} (entryBytes : α → Bytes) (entries : List α) : Bytes :=
  Word.count16 entries.length ++ entries.flatMap entryBytes

/-- Read a table that takes up all of the named attribute. -/
def ofBytes {α : Type} (name : String) (readEntry : Reader α) (info : Bytes) :
    Except ClassFileError (List α) :=
  Reader.readAll (do
    let entries ← Reader.table readEntry
    Reader.attributeEnd name
    return entries) info

/-- The body of a line table after `distance` bytes were inserted. -/
def shiftLines (distance : UInt16) (info : Bytes) : Except ClassFileError Bytes := do
  let entries ← ofBytes LineEntry.attributeName (LineEntry.readShifted distance) info
  return bytes LineEntry.bytes entries

/-- The body of the named variable table after `distance` bytes were inserted. -/
def shiftVariables (name : String) (distance : UInt16) (info : Bytes) :
    Except ClassFileError Bytes := do
  let entries ← ofBytes name (VariableRange.readShifted name distance) info
  return bytes VariableRange.bytes entries

end DebugTable

end Lookout
