/-
# What can be wrong with class data

One constructor per cause, carrying the facts that a reader of the report
needs. The wording is in `message` alone, so that code which inspects a
failure never looks at text.
-/

import Lookout.Text.Hexadecimal

namespace Lookout

/-- The kind of constant that a lookup needed and did not find. -/
inductive ConstantRole where
  | utf8
  | classEntry
  | memberReference
  | nameAndType
  deriving DecidableEq

/-- The name of the role, as reports give it. -/
def ConstantRole.label : ConstantRole → String
  | .utf8 => "Utf8"
  | .classEntry => "Class"
  | .memberReference => "member reference"
  | .nameAndType => "NameAndType"

/-- Why the body of an attribute could not be decoded or moved. -/
inductive AttributeFault where
  /-- The decoded structure ended before the attribute did. -/
  | trailing (count : Nat)
  | unknownVerificationTag (tag : UInt8)
  | reservedFrameType (frameType : UInt8)
  /-- Moving the first frame would push its offset past 65535. -/
  | frameOffsetOverflow
  /-- Moving an uninitialized value's creation site would push it past 65535. -/
  | uninitializedOffsetOverflow
  /-- Moving a recorded offset would push it past 65535. -/
  | offsetOverflow (offset distance : UInt16)
  deriving DecidableEq

/-- The reason in words. -/
def AttributeFault.reason : AttributeFault → String
  | .trailing count => toString count ++ " trailing bytes"
  | .unknownVerificationTag tag => "unknown verification type tag " ++ toString tag.toNat
  | .reservedFrameType frameType => "reserved frame type " ++ toString frameType.toNat
  | .frameOffsetOverflow => "frame offset overflow"
  | .uninitializedOffsetOverflow => "uninitialized offset overflow"
  | .offsetOverflow offset distance =>
    "offset " ++ toString offset.toNat ++ " overflows after shifting by " ++
      toString distance.toNat

/-- Everything that can go wrong while class data is read, assembled or edited. -/
inductive ClassFileError where
  | badMagic (found : UInt32)
  /-- The data ended inside an item that starts at `offset`. -/
  | unexpectedEnd (offset : Nat)
  | trailingBytes (count : Nat)
  | unknownConstantTag (tag : UInt8) (index : UInt16)
  | badConstantIndex (index : UInt16)
  | wrongConstantType (index : UInt16) (expected : ConstantRole)
  | invalidUtf8
  | invalidDescriptor (text : String)
  | poolOverflow
  | codeTooLarge (length : Nat)
  | malformedAttribute (name : String) (fault : AttributeFault)
  | invalidOpcode (opcode : UInt8) (offset : Nat)
  | badBranchTarget (origin : Nat) (target : Int)
  | stackUnderflow (instruction : String)
  | unbalancedStack (depth : Nat)
  | misalignedFragment (length : Nat)
  /-- A caller asked to edit a member that the class does not have. -/
  | noSuchMember (index : Nat)
  deriving DecidableEq

/-- The report for a failure. -/
def ClassFileError.message : ClassFileError → String
  | .badMagic found => "bad magic number 0x" ++ Text.hexadecimal 8 found.toNat
  | .unexpectedEnd offset => "unexpected end of class data at offset " ++ toString offset
  | .trailingBytes count => toString count ++ " trailing bytes after class data"
  | .unknownConstantTag tag index =>
    "unknown constant pool tag " ++ toString tag.toNat ++ " at index " ++ toString index.toNat
  | .badConstantIndex index =>
    "constant pool index " ++ toString index.toNat ++ " is out of range or unusable"
  | .wrongConstantType index expected =>
    "constant pool entry " ++ toString index.toNat ++ " is not a " ++ expected.label
  | .invalidUtf8 => "invalid modified UTF-8 in constant pool"
  | .invalidDescriptor text => "invalid descriptor '" ++ text ++ "'"
  | .poolOverflow => "constant pool is full"
  | .codeTooLarge length =>
    "code length " ++ toString length ++ " exceeds the 65535 byte limit"
  | .malformedAttribute name fault =>
    "malformed " ++ name ++ " attribute: " ++ fault.reason
  | .invalidOpcode opcode offset =>
    "invalid opcode 0x" ++ Text.hexadecimal 2 opcode.toNat ++ " at offset " ++ toString offset
  | .badBranchTarget origin target =>
    "offset " ++ toString target ++ " referenced from " ++ toString origin ++
      " is not an instruction boundary"
  | .stackUnderflow instruction => "operand stack underflow at " ++ instruction
  | .unbalancedStack depth =>
    "fragment leaves " ++ toString depth ++ " values on the operand stack"
  | .misalignedFragment length =>
    "fragment length " ++ toString length ++ " is not a multiple of four"
  | .noSuchMember index => "the class has no member number " ++ toString index

end Lookout
