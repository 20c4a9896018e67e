/-
# Attributes

An attribute is a name, by pool index, and a run of bytes whose meaning the
name decides. Most attributes are carried along without being looked into.
-/

import Lookout.Bytes.Cursor

namespace Lookout

/-- A named run of bytes attached to a class, a member or a method's code. -/
structure Attribute where
  nameIndex : UInt16
  info : Bytes
  deriving DecidableEq

namespace Attribute

/-- The attribute as it is written. -/
def bytes (item : Attribute) : Bytes :=
  Word.bytes16 item.nameIndex ++ (Word.count32 item.info.length ++ item.info)

/-- Read an attribute. -/
def read : Reader Attribute := do
  let nameIndex ← Reader.word16
  let info ← Reader.blob
  return ⟨nameIndex, info⟩

/-- A list of attributes as it is written: their count, then each of them. -/
def listBytes (attributes : List Attribute) : Bytes :=
  Word.count16 attributes.length ++ attributes.flatMap bytes

/-- Read a list of attributes. -/
def readList : Reader (List Attribute) := Reader.table read

end Attribute

end Lookout
