/-
# The code of a method

What the `Code` attribute of a method holds: the frame it needs, the code
array, the exception table, and attributes of its own. Nothing is required of
the bytes of the code array here.
-/

import Lookout.Attribute

namespace Lookout

/-- A range of code and where exceptions thrown in it are handled. -/
structure ExceptionEntry where
  start : UInt16
  /-- The first offset behind the range. -/
  stop : UInt16
  handler : UInt16
  /-- The class that is caught, by pool index, or 0 for every class. -/
  catchType : UInt16
  deriving DecidableEq

/-- The code of a method. -/
structure MethodCode where
  maxStack : UInt16
  maxLocals : UInt16
  code : Bytes
  exceptions : List ExceptionEntry
  attributes : List Attribute
  deriving DecidableEq

namespace ExceptionEntry

/-- The entry as it is written. -/
def bytes (entry : ExceptionEntry) : Bytes :=
  Word.bytes16 entry.start ++ (Word.bytes16 entry.stop ++
    (Word.bytes16 entry.handler ++ Word.bytes16 entry.catchType))

/-- Read an entry. -/
def read : Reader ExceptionEntry := do
  let start ← Reader.word16
  let stop ← Reader.word16
  let handler ← Reader.word16
  let catchType ← Reader.word16
  return ⟨start, stop, handler, catchType⟩

end ExceptionEntry

namespace MethodCode

/-- The name of the attribute. -/
def attributeName : String := "Code"

/-- Code without exception table and attributes. -/
def plain (maxStack maxLocals : UInt16) (code : Bytes) : MethodCode :=
  ⟨maxStack, maxLocals, code, [], []⟩

/-- The body of the attribute as it is written. -/
def bytes (body : MethodCode) : Bytes :=
  Word.bytes16 body.maxStack ++ (Word.bytes16 body.maxLocals ++
    (Word.count32 body.code.length ++ (body.code ++
      (Word.count16 body.exceptions.length ++
        (body.exceptions.flatMap ExceptionEntry.bytes ++
          Attribute.listBytes body.attributes)))))

/-- Read a body that takes up all of an attribute. -/
def read : Reader MethodCode := do
  let maxStack ← Reader.word16
  let maxLocals ← Reader.word16
  let code ← Reader.blob
  let exceptions ← Reader.table ExceptionEntry.read
  let attributes ← Attribute.readList
  Reader.attributeEnd attributeName
  return ⟨maxStack, maxLocals, code, exceptions, attributes⟩

/-- The code in the body of an attribute. -/
def ofBytes (info : Bytes) : Except ClassFileError MethodCode :=
  Reader.readAll read info

end MethodCode

end Lookout
