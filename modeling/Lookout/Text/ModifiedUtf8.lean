/-
# Modified UTF-8

The encoding of text in a constant pool. A text is cut into UTF-16 code units
and each unit is written in one, two or three bytes; the unit 0 takes two, so
no zero byte and no byte above EF ever occurs. Reading accepts the longer
forms of a unit as well, and refuses stray or missing continuation bytes, a
raw zero, four-byte sequences and unpaired surrogates.
-/

import Lookout.Bytes
import Lookout.Text.CodeUnits

namespace Lookout.Text.ModifiedUtf8

/-- The bytes of one code unit, in the form prescribed for its size. -/
def encodeUnit (unit : UInt16) : Bytes :=
  let value := unit.toNat
  if 0x01 ≤ value ∧ value ≤ 0x7F then [UInt8.ofNat value]
  else if value ≤ 0x7FF then
    [UInt8.ofNat (0xC0 + value / 64), UInt8.ofNat (0x80 + value % 64)]
  else
    [UInt8.ofNat (0xE0 + value / 4096), UInt8.ofNat (0x80 + value / 64 % 64),
      UInt8.ofNat (0x80 + value % 64)]

/-- The encoded bytes of a text. -/
def encode (text : String) : Bytes :=
  (units text).flatMap encodeUnit

/-- Whether the byte continues a sequence. -/
def isContinuation (byte : UInt8) : Bool :=
  0x80 ≤ byte && byte ≤ 0xBF

/-- The unit of a two-byte sequence. -/
def unitOfTwo (first second : UInt8) : UInt16 :=
  UInt16.ofNat (first.toNat % 32 * 64 + second.toNat % 64)

/-- The unit of a three-byte sequence. -/
def unitOfThree (first second third : UInt8) : UInt16 :=
  UInt16.ofNat ((first.toNat % 16 * 64 + second.toNat % 64) * 64 + third.toNat % 64)

/-- Read code units behind those already `done`, which are kept in reverse so
that long texts need no stack. -/
def decodeUnitsOnto : List UInt16 → Bytes → Option (List UInt16)
  | done, [] => some done.reverse
  | done, first :: rest =>
    if 0x01 ≤ first ∧ first ≤ 0x7F then
      decodeUnitsOnto (UInt16.ofNat first.toNat :: done) rest
    else if 0xC0 ≤ first ∧ first ≤ 0xDF then
      match rest with
      | second :: rest =>
        if isContinuation second then decodeUnitsOnto (unitOfTwo first second :: done) rest
        else none
      | [] => none
    else if 0xE0 ≤ first ∧ first ≤ 0xEF then
      match rest with
      | second :: third :: rest =>
        if isContinuation second && isContinuation third then
          decodeUnitsOnto (unitOfThree first second third :: done) rest
        else none
      | _ => none
    else none

/-- The code units that the bytes spell, if every sequence is whole. -/
def decodeUnits (bytes : Bytes) : Option (List UInt16) :=
  decodeUnitsOnto [] bytes

/-- The text that the bytes spell. -/
def decode? (bytes : Bytes) : Option String :=
  (decodeUnits bytes).bind ofUnits?

end Lookout.Text.ModifiedUtf8
