/-
# The class file format is lossless

A class that fits the widths of the count and length fields is read back from
its written form as it was. In the other direction, data that is read is the
written form of the class it holds, save that a constant pool count of 0 is
written back as 1.
-/

import Lookout.ClassFile.Format
import Lookout.Proofs.ConstantPool.Growth
import Lookout.Proofs.MethodCode.Format

namespace Lookout

open Reader

namespace Member

/-- Whether the attributes of the member can be written. -/
def Fits (member : Member) : Prop := Attribute.ListFits member.attributes

/-- Whether the members can be written as a list. -/
def ListFits (members : List Member) : Prop :=
  members.length < 65536 ∧ ∀ member ∈ members, member.Fits

theorem accepts_read : Accepts read (Written bytes Fits) :=
  (accepts_word16.bind fun access => accepts_word16.bind fun nameIndex => accepts_word16.bind
    fun descriptorIndex => Attribute.accepts_readList.map
      (Member.mk access nameIndex descriptorIndex)).congr fun written member => by
    constructor
    · rintro ⟨_, access, _, rfl, rfl, _, nameIndex, _, rfl, rfl, _, descriptorIndex, _, rfl, rfl,
        attributes, ⟨rfl, fits⟩, rfl⟩
      exact ⟨rfl, fits⟩
    · rintro ⟨rfl, fits⟩
      exact .intro rfl (.intro rfl (.intro rfl ⟨member.attributes, ⟨rfl, fits⟩, rfl⟩))

theorem accepts_readList : Accepts readList (Written listBytes ListFits) :=
  accepts_read.writtenTable

/-- An attribute of a member of a list is shorter than the list. -/
theorem length_info_lt_of_mem {member : Member} {members : List Member} {item : Attribute}
    (inMembers : member ∈ members) (inAttributes : item ∈ member.attributes) :
    item.info.length < (listBytes members).length := by
  have inside := Attribute.length_info_lt_of_mem inAttributes
  obtain ⟨before, after, rfl⟩ := List.append_of_mem inMembers
  simp only [listBytes, bytes, List.flatMap_append, List.flatMap_cons, List.length_append]
  omega

end Member

namespace ClassFile

/-- Whether all lengths and counts of the class can be written, and its constant
pool has the form of one. -/
structure Fits (file : ClassFile) : Prop where
  pool : file.pool.WellFormed
  texts : file.pool.TextsFit
  interfaces : file.interfaces.length < 65536
  fields : Member.ListFits file.fields
  methods : Member.ListFits file.methods
  attributes : Attribute.ListFits file.attributes

/-- The class as it is written, but with the given bytes for its constant pool. -/
def bytesAround (poolBytes : Bytes) (file : ClassFile) : Bytes :=
  Word.bytes32 magic ++ (Word.bytes16 file.minorVersion ++ (Word.bytes16 file.majorVersion ++
    (poolBytes ++ (Word.bytes16 file.access ++ (Word.bytes16 file.thisClass ++
      (Word.bytes16 file.superClass ++ ((Word.count16 file.interfaces.length ++
        file.interfaces.flatMap Word.bytes16) ++ (Member.listBytes file.fields ++
          (Member.listBytes file.methods ++ Attribute.listBytes file.attributes)))))))))

/-- The bytes that a class is read from. -/
def SpelledBy (data : Bytes) (file : ClassFile) : Prop :=
  file.Fits ∧ ∃ poolBytes, ConstantPool.SpelledBy poolBytes file.pool ∧
    data = file.bytesAround poolBytes

theorem bytes_eq_bytesAround (file : ClassFile) :
    file.bytes = file.bytesAround file.pool.bytes := by
  simp only [bytes, bytesAround, List.append_assoc]

private theorem accepts_readMagic :
    Accepts readMagic fun written _ => written = Word.bytes32 magic where
  reads := by
    rintro written value rfl position rest
    rw [readMagic, bind_eq_ok_iff]
    exact ⟨magic, ⟨position + 4, rest⟩, accepts_word32.reads rfl position rest, rfl⟩
  consumed := by
    intro cursor value next success
    obtain ⟨found, between, foundRead, success⟩ := bind_eq_ok_iff.mp success
    obtain ⟨front, rfl, rest, position⟩ := accepts_word32.consumed foundRead
    split at success
    case isTrue => cases success
    case isFalse same =>
      cases success
      rw [Decidable.not_not] at same
      exact ⟨_, by rw [same], rest, position⟩

private theorem finishes_readEnd (file : ClassFile) :
    Finishes (readEnd >>= fun _ => pure file) fun written other => written = [] ∧ other = file := by
  intro position data other
  cases data with
  | nil =>
      constructor
      · rintro ⟨next, success⟩
        cases success
        exact ⟨rfl, rfl⟩
      · rintro ⟨-, rfl⟩
        exact ⟨_, rfl⟩
  | cons first rest =>
      constructor
      · rintro ⟨next, success⟩
        cases success
      · rintro ⟨impossible, -⟩
        cases impossible

private theorem finishes_read : Finishes read SpelledBy := by
  have interfaceItem : Accepts word16 (Written Word.bytes16 fun _ => True) :=
    accepts_word16.congr fun written value => by simp [Written]
  refine Finishes.congr (accepts_readMagic.finishes fun _ => accepts_word16.finishes
    fun minorVersion => accepts_word16.finishes fun majorVersion =>
      ConstantPool.accepts_read.finishes fun pool => accepts_word16.finishes fun access =>
        accepts_word16.finishes fun thisClass => accepts_word16.finishes fun superClass =>
          interfaceItem.writtenTable.finishes fun interfaces =>
            Member.accepts_readList.finishes fun fields => Member.accepts_readList.finishes
              fun methods => Attribute.accepts_readList.finishes fun attributes =>
                finishes_readEnd ⟨minorVersion, majorVersion, pool, access, thisClass, superClass,
                  interfaces, fields, methods, attributes⟩) fun written file => ?_
  constructor
  · rintro ⟨_, _, _, rfl, rfl, _, minorVersion, _, rfl, rfl, _, majorVersion, _, rfl, rfl,
      poolBytes, pool, _, rfl, spelled, _, access, _, rfl, rfl, _, thisClass, _, rfl, rfl, _,
      superClass, _, rfl, rfl, _, interfaces, _, rfl, ⟨rfl, interfacesFit⟩, _, fields, _, rfl,
      ⟨rfl, fieldsFit⟩, _, methods, _, rfl, ⟨rfl, methodsFit⟩, _, attributes, _, rfl,
      ⟨rfl, attributesFit⟩, rfl, rfl⟩
    refine ⟨⟨spelled.1, spelled.2.1, interfacesFit.1, fieldsFit, methodsFit, attributesFit⟩,
      poolBytes, spelled, ?_⟩
    simp only [bytesAround, List.append_nil]
  · rintro ⟨fits, poolBytes, spelled, rfl⟩
    have shape : file.bytesAround poolBytes =
        Word.bytes32 magic ++ (Word.bytes16 file.minorVersion ++ (Word.bytes16 file.majorVersion ++
          (poolBytes ++ (Word.bytes16 file.access ++ (Word.bytes16 file.thisClass ++
            (Word.bytes16 file.superClass ++ ((Word.count16 file.interfaces.length ++
              file.interfaces.flatMap Word.bytes16) ++ (Member.listBytes file.fields ++
                (Member.listBytes file.methods ++
                  (Attribute.listBytes file.attributes ++ [])))))))))) := by
      simp only [bytesAround, List.append_nil]
    rw [shape]
    exact ⟨_, (), _, rfl, rfl, .intro rfl (.intro rfl (.intro spelled (.intro rfl (.intro rfl
      (.intro rfl (.intro ⟨rfl, fits.interfaces, by simp⟩ (.intro ⟨rfl, fits.fields⟩
        (.intro ⟨rfl, fits.methods⟩ (.intro ⟨rfl, fits.attributes⟩ ⟨rfl, rfl⟩)))))))))⟩

theorem ofBytes_eq_ok_iff {data : Bytes} {file : ClassFile} :
    ofBytes data = .ok file ↔ SpelledBy data file :=
  finishes_read.readAll_eq_ok_iff

/-- A class that fits is read back as it was written. -/
theorem ofBytes_bytes {file : ClassFile} (fits : file.Fits) : ofBytes file.bytes = .ok file :=
  ofBytes_eq_ok_iff.mpr ⟨fits, file.pool.bytes, ⟨fits.pool, fits.texts, .inl rfl⟩,
    file.bytes_eq_bytesAround⟩

theorem fits_of_ofBytes {data : Bytes} {file : ClassFile} (read : ofBytes data = .ok file) :
    file.Fits :=
  (ofBytes_eq_ok_iff.mp read).1

/-- A class with a constant is written in the bytes that it was read from. -/
theorem eq_bytes_of_ofBytes {data : Bytes} {file : ClassFile} (read : ofBytes data = .ok file)
    {index : UInt16} {constant : Constant} (found : file.pool.get index = .ok constant) :
    data = file.bytes := by
  obtain ⟨-, poolBytes, ⟨-, -, same⟩, rfl⟩ := ofBytes_eq_ok_iff.mp read
  rcases same with rfl | ⟨empty, -⟩
  · exact file.bytes_eq_bytesAround.symm
  · have inEmpty := ConstantPool.mem_slots_of_get found
    rw [empty] at inEmpty
    cases inEmpty with
    | tail _ impossible => cases impossible

/-- A class is written in as many bytes as it was read from. -/
theorem length_bytes_of_ofBytes {data : Bytes} {file : ClassFile} (read : ofBytes data = .ok file) :
    file.bytes.length = data.length := by
  obtain ⟨-, poolBytes, ⟨-, -, same⟩, rfl⟩ := ofBytes_eq_ok_iff.mp read
  have sameLength : file.pool.bytes.length = poolBytes.length := by
    rcases same with rfl | ⟨empty, rfl⟩
    · rfl
    · rw [empty]
      rfl
  rw [bytes_eq_bytesAround]
  simp only [bytesAround, List.length_append, sameLength]

/-- Every attribute of a method is shorter than the data that the class was read from. -/
theorem length_info_lt_of_ofBytes {data : Bytes} {file : ClassFile} {method : Member}
    {item : Attribute} (read : ofBytes data = .ok file) (inMethods : method ∈ file.methods)
    (inAttributes : item ∈ method.attributes) : item.info.length < data.length := by
  have inside := Member.length_info_lt_of_mem inMethods inAttributes
  rw [← length_bytes_of_ofBytes read, bytes_eq_bytesAround]
  simp only [bytesAround, List.length_append]
  omega

end ClassFile

end Lookout
