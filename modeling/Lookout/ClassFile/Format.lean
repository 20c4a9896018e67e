/-
# The class file format

The parts of a class in file order, between the magic number and the end of
the data. Nothing may follow the last part.
-/

import Lookout.ClassFile.Basic
import Lookout.ConstantPool.Format

namespace Lookout.ClassFile

/-- The number that every class file begins with. -/
def magic : UInt32 := 0xCAFEBABE

/-- The class as it is written. -/
def bytes (file : ClassFile) : Bytes :=
  Word.bytes32 magic ++ (Word.bytes16 file.minorVersion ++ (Word.bytes16 file.majorVersion ++
    (file.pool.bytes ++ (Word.bytes16 file.access ++ (Word.bytes16 file.thisClass ++
      (Word.bytes16 file.superClass ++ (Word.count16 file.interfaces.length ++
        (file.interfaces.flatMap Word.bytes16 ++ (Member.listBytes file.fields ++
          (Member.listBytes file.methods ++ Attribute.listBytes file.attributes))))))))))

/-- Require the magic number. -/
def readMagic : Reader Unit := do
  let found ← Reader.word32
  if found ≠ magic then
    Reader.fail (.badMagic found)

/-- Require that nothing is left. -/
def readEnd : Reader Unit := do
  let left ← Reader.remaining
  if left ≠ 0 then
    Reader.fail (.trailingBytes left)

/-- Read a class that takes up all of the data. -/
def read : Reader ClassFile := do
  readMagic
  let minorVersion ← Reader.word16
  let majorVersion ← Reader.word16
  let pool ← ConstantPool.read
  let access ← Reader.word16
  let thisClass ← Reader.word16
  let superClass ← Reader.word16
  let interfaces ← Reader.table Reader.word16
  let fields ← Member.readList
  let methods ← Member.readList
  let attributes ← Attribute.readList
  readEnd
  return {
    minorVersion, majorVersion, pool, access, thisClass, superClass, interfaces, fields, methods,
    attributes }

/-- The class that the data holds. -/
def ofBytes (data : Bytes) : Except ClassFileError ClassFile :=
  Reader.readAll read data

end Lookout.ClassFile
