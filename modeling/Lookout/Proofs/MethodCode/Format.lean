/-
# The format of a method's code is lossless

Attributes and method bodies have one written form each, and are read from
nothing else. What a body may contain is limited only by the width of its
length and count fields.
-/

import Lookout.MethodCode.Basic
import Lookout.Proofs.Bytes.Grammar

namespace Lookout

open Reader

namespace Attribute

/-- Whether the length of the attribute can be written. -/
def Fits (item : Attribute) : Prop := item.info.length < 4294967296

/-- Whether the attributes can be written as a list. -/
def ListFits (attributes : List Attribute) : Prop :=
  attributes.length < 65536 ∧ ∀ item ∈ attributes, item.Fits

theorem accepts_read : Accepts read (Written bytes Fits) :=
  (accepts_word16.bind fun nameIndex => accepts_blob.map (Attribute.mk nameIndex)).congr
    fun written item => by
      constructor
      · rintro ⟨_, nameIndex, _, rfl, rfl, info, ⟨rfl, fits⟩, rfl⟩
        exact ⟨rfl, fits⟩
      · rintro ⟨rfl, fits⟩
        exact ⟨_, item.nameIndex, _, rfl, rfl, item.info, ⟨rfl, fits⟩, rfl⟩

theorem accepts_readList : Accepts readList (Written listBytes ListFits) :=
  accepts_read.writtenTable

@[simp]
theorem length_bytes (item : Attribute) : item.bytes.length = item.info.length + 6 := by
  simp only [bytes, List.length_append, Word.length_bytes16, Word.length_count32]
  omega

theorem length_listBytes (attributes : List Attribute) :
    (listBytes attributes).length = 2 + (attributes.flatMap bytes).length := by
  rw [listBytes, List.length_append, Word.length_count16]

/-- An attribute of a list is no longer than the list. -/
theorem length_info_lt_of_mem {item : Attribute} {attributes : List Attribute}
    (member : item ∈ attributes) : item.info.length < (listBytes attributes).length := by
  obtain ⟨before, after, rfl⟩ := List.append_of_mem member
  simp only [length_listBytes, List.flatMap_append, List.flatMap_cons, List.length_append,
    length_bytes]
  omega

end Attribute

namespace ExceptionEntry

theorem accepts_read : Accepts read fun written entry => written = bytes entry :=
  (accepts_word16.bind fun start => accepts_word16.bind fun stop => accepts_word16.bind
    fun handler => accepts_word16.map (ExceptionEntry.mk start stop handler)).congr
    fun written entry => by
      constructor
      · rintro ⟨_, start, _, rfl, rfl, _, stop, _, rfl, rfl, _, handler, _, rfl, rfl, caught, rfl,
          rfl⟩
        rfl
      · rintro rfl
        exact ⟨_, entry.start, _, rfl, rfl, _, entry.stop, _, rfl, rfl, _, entry.handler, _, rfl,
          rfl, entry.catchType, rfl, rfl⟩

@[simp]
theorem length_bytes (entry : ExceptionEntry) : entry.bytes.length = 8 := rfl

end ExceptionEntry

namespace MethodCode

/-- Whether all lengths and counts of the body can be written. -/
structure Fits (body : MethodCode) : Prop where
  code : body.code.length < 4294967296
  exceptions : body.exceptions.length < 65536
  attributes : Attribute.ListFits body.attributes

private theorem finishes_read : Finishes read (Written bytes Fits) := by
  have entries : Accepts ExceptionEntry.read (Written ExceptionEntry.bytes fun _ => True) :=
    ExceptionEntry.accepts_read.congr fun written entry => by simp [Written]
  refine Finishes.congr (accepts_word16.finishes fun maxStack => accepts_word16.finishes
    fun maxLocals => accepts_blob.finishes fun code => entries.writtenTable.finishes
      fun exceptions => Attribute.accepts_readList.finishes fun attributes =>
        finishes_attributeEnd attributeName
          (MethodCode.mk maxStack maxLocals code exceptions attributes))
    fun written body => ?_
  constructor
  · rintro ⟨_, maxStack, _, rfl, rfl, _, maxLocals, _, rfl, rfl, _, code, _, rfl,
      ⟨rfl, codeFits⟩, _, exceptions, _, rfl, ⟨rfl, exceptionsFit⟩, _, attributes, _, rfl,
      ⟨rfl, attributesFit⟩, rfl, rfl⟩
    exact ⟨by simp only [bytes, List.append_assoc, List.append_nil],
      codeFits, exceptionsFit.1, attributesFit⟩
  · rintro ⟨rfl, fits⟩
    have shape : body.bytes = Word.bytes16 body.maxStack ++ (Word.bytes16 body.maxLocals ++
        ((Word.count32 body.code.length ++ body.code) ++
          ((Word.count16 body.exceptions.length ++ body.exceptions.flatMap ExceptionEntry.bytes) ++
            (Attribute.listBytes body.attributes ++ [])))) := by
      simp only [bytes, List.append_assoc, List.append_nil]
    rw [shape]
    exact .intro rfl (.intro rfl (.intro ⟨rfl, fits.code⟩ (.intro ⟨rfl, fits.exceptions, by simp⟩
      (.intro ⟨rfl, fits.attributes⟩ ⟨rfl, rfl⟩))))

/-- A body is read exactly from its written form. -/
theorem ofBytes_eq_ok_iff {info : Bytes} {body : MethodCode} :
    ofBytes info = .ok body ↔ info = body.bytes ∧ body.Fits :=
  finishes_read.readAll_eq_ok_iff

theorem length_bytes (body : MethodCode) :
    body.bytes.length =
      12 + body.code.length + 8 * body.exceptions.length +
        (body.attributes.flatMap Attribute.bytes).length := by
  have entries : (body.exceptions.flatMap ExceptionEntry.bytes).length =
      8 * body.exceptions.length := by
    have eight (entry : ExceptionEntry) : entry.bytes.length = 8 := rfl
    simp only [List.length_flatMap, eight, List.map_const', List.sum_replicate_nat, Nat.mul_comm]
  simp only [bytes, List.length_append, Word.length_bytes16, Word.length_count32,
    Word.length_count16, entries, Attribute.length_listBytes]
  omega

end MethodCode

end Lookout
