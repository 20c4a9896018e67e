/-
# How much a method grows

An insertion adds the fragment, and little else: moving a stack map table may cost
two bytes for the delta of its first frame, no other attribute gets longer, and
some are dropped. So what was short enough to be written stays so.
-/

import Lookout.Proofs.MethodCode.DebugTable
import Lookout.Proofs.MethodCode.Format
import Lookout.Proofs.MethodCode.Insertion
import Lookout.Proofs.StackMap.Shift

namespace Lookout

namespace MethodCode

/-- Frames are moved exactly if they can be read and have room. -/
theorem shiftFrames_eq_ok_iff {distance : UInt16} {info : Bytes} {moved : StackMapTable} :
    shiftFrames distance info = .ok moved ↔ ∃ table, StackMapTable.ofBytes info = .ok table ∧
      table.HasRoom distance ∧ moved = table.raised distance := by
  unfold shiftFrames
  rw [bindExcept_eq_ok_iff]
  refine exists_congr fun table => and_congr_right fun _ => ?_
  rw [← StackMapTable.shift_eq_ok_iff]
  rcases table.shift distance with ⟨_ | _, shifted⟩
  · constructor <;> intro impossible <;> cases impossible
  · constructor <;> intro success <;> cases success <;> rfl

theorem length_bytes_le_of_shiftFrames {distance : UInt16} {info : Bytes} {table : StackMapTable}
    (success : shiftFrames distance info = .ok table) : table.bytes.length ≤ info.length + 2 := by
  obtain ⟨original, read, -, rfl⟩ := shiftFrames_eq_ok_iff.mp success
  have noLonger := StackMapTable.length_bytes_le_of_ofBytes read
  have raised := original.length_bytes_raised_le distance
  omega

/-- What becomes of an attribute with this name. -/
inductive Moves (distance : UInt16) (item : Attribute) : String → MovedAttribute → Prop where
  | lines {info : Bytes} : DebugTable.shiftLines distance item.info = .ok info →
      Moves distance item LineEntry.attributeName ⟨some { item with info }, []⟩
  | ranges {name : String} {info : Bytes} :
      name = VariableRange.attributeName ∨ name = VariableRange.typeAttributeName →
      DebugTable.shiftVariables name distance item.info = .ok info →
      Moves distance item name ⟨some { item with info }, []⟩
  | frames {table : StackMapTable} : shiftFrames distance item.info = .ok table →
      Moves distance item StackMapTable.attributeName
        ⟨some { item with info := table.bytes }, table.offsets⟩
  | dropped {name : String} : name ∈ typeAnnotationNames → Moves distance item name ⟨none, []⟩
  | untouched {name : String} : name ≠ LineEntry.attributeName →
      name ≠ VariableRange.attributeName → name ≠ VariableRange.typeAttributeName →
      name ≠ StackMapTable.attributeName → name ∉ typeAnnotationNames →
      Moves distance item name ⟨some item, []⟩

theorem moves_of_moveAttribute {pool : ConstantPool} {distance : UInt16} {item : Attribute}
    {moved : MovedAttribute} (success : moveAttribute pool distance item = .ok moved) :
    ∃ name, pool.utf8 item.nameIndex = .ok name ∧ Moves distance item name moved := by
  obtain ⟨name, resolved, success⟩ := bindExcept_eq_ok_iff.mp success
  refine ⟨name, resolved, ?_⟩
  split at success
  case isTrue lines =>
    obtain ⟨info, shifted, success⟩ := bindExcept_eq_ok_iff.mp success
    cases success
    subst lines
    exact .lines shifted
  case isFalse notLines =>
    split at success
    case isTrue ofRanges =>
      obtain ⟨info, shifted, success⟩ := bindExcept_eq_ok_iff.mp success
      cases success
      exact .ranges ofRanges shifted
    case isFalse notRanges =>
      split at success
      case isTrue frames =>
        obtain ⟨table, shifted, success⟩ := bindExcept_eq_ok_iff.mp success
        cases success
        subst frames
        exact .frames shifted
      case isFalse notFrames =>
        split at success
        case isTrue annotations =>
          cases success
          exact .dropped annotations
        case isFalse notAnnotations =>
          cases success
          obtain ⟨notByDescriptor, notBySignature⟩ := not_or.mp notRanges
          exact .untouched notLines notByDescriptor notBySignature notFrames notAnnotations

theorem moveAttribute_of_moves {pool : ConstantPool} {distance : UInt16} {item : Attribute}
    {name : String} {moved : MovedAttribute} (resolved : pool.utf8 item.nameIndex = .ok name)
    (moves : Moves distance item name moved) : moveAttribute pool distance item = .ok moved := by
  refine bindExcept_eq_ok_iff.mpr ⟨name, resolved, ?_⟩
  cases moves with
  | lines shifted =>
      rw [if_pos rfl]
      exact bindExcept_eq_ok_iff.mpr ⟨_, shifted, rfl⟩
  | ranges named shifted =>
      have notLines : name ≠ LineEntry.attributeName := by rcases named with rfl | rfl <;> decide
      rw [if_neg notLines, if_pos named]
      exact bindExcept_eq_ok_iff.mpr ⟨_, shifted, rfl⟩
  | frames shifted =>
      rw [if_neg (by decide), if_neg (by decide), if_pos rfl]
      exact bindExcept_eq_ok_iff.mpr ⟨_, shifted, rfl⟩
  | dropped annotations =>
      have notMoved : name ≠ LineEntry.attributeName ∧
          ¬(name = VariableRange.attributeName ∨ name = VariableRange.typeAttributeName) ∧
            name ≠ StackMapTable.attributeName := by
        simp only [typeAnnotationNames, List.mem_cons, List.not_mem_nil, or_false] at annotations
        rcases annotations with rfl | rfl <;> decide
      rw [if_neg notMoved.1, if_neg notMoved.2.1, if_neg notMoved.2.2, if_pos annotations]
      rfl
  | untouched notLines notByDescriptor notBySignature notFrames notAnnotations =>
      rw [if_neg notLines, if_neg (not_or.mpr ⟨notByDescriptor, notBySignature⟩), if_neg notFrames,
        if_neg notAnnotations]
      rfl

/-- What is kept of an attribute is at most two bytes longer. -/
theorem Moves.length_bytes_le {distance : UInt16} {item : Attribute} {name : String}
    {moved : MovedAttribute} (moves : Moves distance item name moved) :
    (moved.kept.toList.flatMap Attribute.bytes).length ≤ item.bytes.length + 2 := by
  cases moves with
  | lines shifted =>
      have noLonger := DebugTable.length_le_of_shiftLines shifted
      simpa using Nat.le_add_right_of_le noLonger
  | ranges _ shifted =>
      have noLonger := DebugTable.length_le_of_shiftVariables shifted
      simpa using Nat.le_add_right_of_le noLonger
  | frames shifted =>
      have growth := length_bytes_le_of_shiftFrames shifted
      simpa using growth
  | dropped _ => simp
  | untouched _ _ _ _ _ => simp

/-- What is kept of a list of attributes is at most two bytes longer for each. -/
theorem length_kept_le {pool : ConstantPool} {distance : UInt16} {items : List Attribute}
    {moved : List MovedAttribute}
    (success : List.Forall₂ (fun item moved => moveAttribute pool distance item = .ok moved)
      items moved) :
    (moved.filterMap MovedAttribute.kept).length ≤ items.length ∧
      ((moved.filterMap MovedAttribute.kept).flatMap Attribute.bytes).length ≤
        (items.flatMap Attribute.bytes).length + 2 * items.length := by
  induction success with
  | nil => exact ⟨Nat.le_refl _, Nat.le_refl _⟩
  | @cons item result items results first _ ih =>
      obtain ⟨name, -, moves⟩ := moves_of_moveAttribute first
      have growth := moves.length_bytes_le
      have split : (result :: results).filterMap MovedAttribute.kept =
          result.kept.toList ++ results.filterMap MovedAttribute.kept := by
        rw [List.filterMap_cons]
        cases result.kept <;> rfl
      have atMostOne : result.kept.toList.length ≤ 1 := by cases result.kept <;> simp
      rw [split, List.flatMap_append, List.flatMap_cons]
      simp only [List.length_append, List.length_cons]
      omega

/-- A method grows by the fragment and at most two bytes for each attribute. -/
theorem length_bytes_insertPrologue_le {body extended : MethodCode} {pool : ConstantPool}
    {fragment : Fragment} (inserted : body.insertPrologue pool fragment = .ok extended) :
    extended.bytes.length ≤ body.bytes.length + fragment.length + 2 * body.attributes.length := by
  obtain ⟨-, -, exceptions, moved, exceptionsMoved, attributesMoved, -, rfl⟩ :=
    insertPrologue_eq_ok_iff.mp inserted
  have sameCount := (mapExcept_eq_ok_iff.mp exceptionsMoved).length_eq
  have growth := (length_kept_le (mapExcept_eq_ok_iff.mp attributesMoved)).2
  simp only [length_bytes, List.length_append, Fragment.length]
  omega

/-- A method that is far from the limits on lengths can still be written after an
insertion. -/
theorem fits_of_insertPrologue {body extended : MethodCode} {pool : ConstantPool}
    {fragment : Fragment} (fits : body.Fits) (small : body.bytes.length < 2147483648)
    (inserted : body.insertPrologue pool fragment = .ok extended) : extended.Fits := by
  have growth := length_bytes_insertPrologue_le inserted
  obtain ⟨-, short, exceptions, moved, exceptionsMoved, attributesMoved, -, rfl⟩ :=
    insertPrologue_eq_ok_iff.mp inserted
  have sameCount := (mapExcept_eq_ok_iff.mp exceptionsMoved).length_eq
  have kept := (length_kept_le (mapExcept_eq_ok_iff.mp attributesMoved)).1
  have fewAttributes := fits.attributes.1
  rw [maxCodeLength, Fragment.length] at short
  refine ⟨?_, sameCount ▸ fits.exceptions, Nat.lt_of_le_of_lt kept fewAttributes, ?_⟩
  · show (fragment.code ++ body.code).length < 4294967296
    rw [List.length_append]
    omega
  · intro item member
    have shorter := Attribute.length_info_lt_of_mem member
    rw [Attribute.length_listBytes] at shorter
    rw [length_bytes, Fragment.length] at growth
    rw [Attribute.Fits]
    omega

end MethodCode

end Lookout
