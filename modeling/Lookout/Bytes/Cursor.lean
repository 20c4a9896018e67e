/-
# Reading bytes in order

A cursor is the unread rest of some data together with the offset it starts
at. A reader takes a cursor and yields a value with the cursor behind it, or
the failure. A read that finds too little data consumes nothing and reports
the offset it started at; reads made of several parts therefore report the
part that failed, and that offset is where the cursor is left.
-/

import Lookout.Bytes
import Lookout.ClassFile.Error

namespace Lookout

/-- A place in some data: the offset, and what is still unread from there on. -/
structure Cursor where
  position : Nat
  rest : Bytes
  deriving DecidableEq

/-- The cursor in front of all the data. -/
def Cursor.start (data : Bytes) : Cursor := ⟨0, data⟩

/-- A computation that consumes bytes from a cursor or fails. -/
abbrev Reader := StateT Cursor (Except ClassFileError)

namespace Reader

/-- Exactly `count` bytes. Only that many are looked at, so a large length field
in front of short data costs no more than the data. -/
def take (count : Nat) : Reader Bytes := fun cursor =>
  let chunk := cursor.rest.take count
  if chunk.length = count then
    .ok (chunk, ⟨cursor.position + count, cursor.rest.drop count⟩)
  else .error (.unexpectedEnd cursor.position)

/-- One byte. -/
def byte : Reader UInt8 := fun cursor =>
  match cursor.rest with
  | value :: rest => .ok (value, ⟨cursor.position + 1, rest⟩)
  | [] => .error (.unexpectedEnd cursor.position)

/-- A big-endian 16 bit word. -/
def word16 : Reader UInt16 := fun cursor =>
  match cursor.rest with
  | high :: low :: rest => .ok (Word.of16 high low, ⟨cursor.position + 2, rest⟩)
  | _ => .error (.unexpectedEnd cursor.position)

/-- A big-endian 32 bit word. -/
def word32 : Reader UInt32 := fun cursor =>
  match cursor.rest with
  | b3 :: b2 :: b1 :: b0 :: rest => .ok (Word.of32 b3 b2 b1 b0, ⟨cursor.position + 4, rest⟩)
  | _ => .error (.unexpectedEnd cursor.position)

/-- A 64 bit word, read as two 32 bit halves. -/
def word64 : Reader UInt64 := do
  let high ← word32
  let low ← word32
  return Word.of64 high low

/-- Bytes preceded by their 32 bit count. -/
def blob : Reader Bytes := do
  let length ← word32
  take length.toNat

/-- Read `count` more items behind those already `done`, which are kept in
reverse so that the longest tables need no stack. -/
def manyOnto {α : Type} (item : Reader α) : List α → Nat → Reader (List α)
  | done, 0, cursor => .ok (done.reverse, cursor)
  | done, count + 1, cursor =>
    match item cursor with
    | .ok (value, next) => manyOnto item (value :: done) count next
    | .error fault => .error fault

/-- `count` items, one after the other. -/
def many {α : Type} (count : Nat) (item : Reader α) : Reader (List α) :=
  manyOnto item [] count

/-- A table: a 16 bit count, then that many items. -/
def table {α : Type} (item : Reader α) : Reader (List α) := do
  let count ← word16
  many count.toNat item

/-- Fail with the given cause. -/
def fail {α : Type} (fault : ClassFileError) : Reader α := fun _ => .error fault

/-- Continue with a value that was computed without reading. -/
def ofExcept {α : Type} (result : Except ClassFileError α) : Reader α := fun cursor =>
  result.map fun value => (value, cursor)

/-- How many bytes are unread. -/
def remaining : Reader Nat := fun cursor => .ok (cursor.rest.length, cursor)

/-- Require that the named attribute ends here. -/
def attributeEnd (name : String) : Reader Unit := fun cursor =>
  if cursor.rest.isEmpty then .ok ((), cursor)
  else .error (.malformedAttribute name (.trailing cursor.rest.length))

/-- Run a reader over whole data and keep its value. -/
def readAll {α : Type} (reader : Reader α) (data : Bytes) : Except ClassFileError α :=
  (reader (Cursor.start data)).map Prod.fst

/-- Run a reader and also tell where it left the cursor. A failed read for want
of data leaves the cursor at the offset it reports; the parts before that
offset stay consumed. -/
def attempt {α : Type} (reader : Reader α) (cursor : Cursor) :
    Except ClassFileError α × Cursor :=
  match reader cursor with
  | .ok (value, next) => (.ok value, next)
  | .error (.unexpectedEnd offset) =>
    (.error (.unexpectedEnd offset), ⟨offset, cursor.rest.drop (offset - cursor.position)⟩)
  | .error fault => (.error fault, cursor)

end Reader

end Lookout
