/-
# The class file format is prefix free

Every list in a class file is counted and every run of bytes has its length in front of
it, so where one item ends is known before the next one is looked at. A class that is cut
anywhere, in the pool or in the members or in the body of an attribute, is therefore
refused because the data ended, and never for another cause; and what follows a whole
class is not looked at before it is refused.
-/

import Lookout.Proofs.ClassFile.Format
import Lookout.Proofs.MethodCode.RoundTrip

namespace Lookout

open Reader

namespace Constant

private theorem delimited_pair (make : UInt16 → UInt16 → Constant) :
    Delimited (do let first ← word16; let second ← word16; return make first second) :=
  delimited_word16.bind fun _ => delimited_word16.bind fun _ => delimited_pure _

private theorem delimited_readPayload (index : UInt16) (tag : UInt8) :
    Delimited (readPayload index tag) := by
  unfold readPayload
  split
  case h_1 =>
      exact delimited_word16.bind fun length =>
        (delimited_take length.toNat).bind fun _ => delimited_pure _
  case h_2 | h_3 => exact delimited_word32.bind fun _ => delimited_pure _
  case h_4 | h_5 => exact delimited_word64.bind fun _ => delimited_pure _
  case h_12 =>
      exact delimited_byte.bind fun _ => delimited_word16.bind fun _ => delimited_pure _
  case h_6 | h_7 | h_13 | h_16 | h_17 => exact delimited_word16.bind fun _ => delimited_pure _
  case h_18 => exact delimited_fail _
  all_goals exact delimited_pair _

theorem delimited_read (index : UInt16) : Delimited (read index) :=
  delimited_byte.bind fun tag => delimited_readPayload index tag

end Constant

namespace ConstantPool

/-- The slots are read entry by entry: a wide entry fills two, and is refused if only one
of them is left. -/
private theorem readSlotsOnto_eq (count : Nat) (slots : Array (Option Constant)) :
    (readSlotsOnto count slots : Reader (Array (Option Constant))) =
      if slots.size < count then
        Constant.read (UInt16.ofNat slots.size) >>= fun constant =>
          if constant.isWide then
            if slots.size + 1 < count then
              readSlotsOnto count ((slots.push (some constant)).push none)
            else fail (.badConstantIndex (UInt16.ofNat (slots.size + 1)))
          else readSlotsOnto count (slots.push (some constant))
      else pure slots := by
  funext cursor
  rw [readSlotsOnto]
  split
  · cases read : Constant.read (UInt16.ofNat slots.size) cursor with
    | error fault => rw [bind_of_error read]
    | ok pair =>
        rw [bind_of_ok read]
        dsimp only
        split
        · split <;> rfl
        · rfl
  · rfl

private theorem delimited_readSlotsOnto (count : Nat) (slots : Array (Option Constant)) :
    Delimited (readSlotsOnto count slots : Reader (Array (Option Constant))) := by
  -- Every entry fills a slot, so fewer of them are left.
  induction left : count - slots.size using Nat.strongRecOn generalizing slots with
  | ind left ih =>
      rw [readSlotsOnto_eq]
      split
      · refine (Constant.delimited_read _).bind fun constant => ?_
        split
        · split
          · exact ih _ (by simp only [Array.size_push]; omega) _ rfl
          · exact delimited_fail _
        · exact ih _ (by simp only [Array.size_push]; omega) _ rfl
      · exact delimited_pure slots

theorem delimited_read : Delimited read :=
  delimited_word16.bind fun count => (delimited_readSlotsOnto count.toNat empty.slots).bind
    fun _ => delimited_pure _

end ConstantPool

namespace Member

theorem delimited_read : Delimited read :=
  delimited_word16.bind fun _ => delimited_word16.bind fun _ => delimited_word16.bind fun _ =>
    Attribute.delimited_readList.bind fun _ => delimited_pure _

theorem delimited_readList : Delimited readList := delimited_read.table

end Member

namespace ClassFile

private theorem delimited_readMagic : Delimited readMagic := by
  refine delimited_word32.bind fun found => ?_
  split
  · exact delimited_fail _
  · exact delimited_pure ()

private theorem closed_readEnd (file : ClassFile) :
    Closed (readEnd >>= fun _ => pure file) .trailingBytes :=
  closed_of_refuses fun _ _ _ => rfl

private theorem closed_read : Closed read .trailingBytes :=
  delimited_readMagic.closed fun _ => delimited_word16.closed fun _ => delimited_word16.closed
    fun _ => ConstantPool.delimited_read.closed fun _ => delimited_word16.closed fun _ =>
      delimited_word16.closed fun _ => delimited_word16.closed fun _ =>
        delimited_word16.table.closed fun _ => Member.delimited_readList.closed fun _ =>
          Member.delimited_readList.closed fun _ => Attribute.delimited_readList.closed
            fun _ => closed_readEnd _

/-- Data that holds a class is refused as ended wherever it is cut, at an offset that is
not behind the cut, and whatever follows it is refused as so many bytes too much. -/
theorem prefixFree_ofBytes {data : Bytes} {file : ClassFile} (read : ofBytes data = .ok file) :
    (∀ front, front <+: data → front ≠ data →
      ∃ offset ≤ front.length, ofBytes front = .error (.unexpectedEnd offset)) ∧
    ∀ more, more ≠ [] → ofBytes (data ++ more) = .error (.trailingBytes more.length) :=
  ⟨fun _ => closed_read.prefixFree.cutShort read, fun _ => closed_read.prefixFree.goesOn read⟩

/-- A class with a double, a text, a field, and a method whose code has three bytes. -/
def wideSample : Bytes :=
  Word.bytes32 magic ++
    [0, 0, 0, 52, 0, 4, 6, 63, 240, 0, 0, 0, 0, 0, 0, 1, 0, 1, 97, 0, 1, 0, 0, 0, 0, 0, 0, 0, 1,
      0, 2, 0, 3, 0, 3, 0, 0, 0, 1, 0, 1, 0, 3, 0, 3, 0, 1, 0, 3, 0, 0, 0, 3, 7, 8, 9, 0, 0]

/-- That class is refused where the double is cut in its second half, and where another
class follows. -/
theorem prefixFree_ofBytes_wideSample :
    (∃ file, ofBytes wideSample = .ok file ∧ file.methods.length = 1) ∧
      (∃ offset ≤ 17, ofBytes (wideSample.take 17) = .error (.unexpectedEnd offset)) ∧
      ofBytes (wideSample ++ wideSample) = .error (.trailingBytes 62) := by
  obtain ⟨file, read, oneMethod⟩ :
      ∃ file, ofBytes wideSample = .ok file ∧ file.methods.length = 1 := by decide +kernel
  obtain ⟨cut, goesOn⟩ := prefixFree_ofBytes read
  exact ⟨⟨file, read, oneMethod⟩, cut _ (List.take_prefix 17 wideSample) (by decide),
    goesOn wideSample (by decide)⟩

end ClassFile

end Lookout
