/-
# Valid methods are never refused

An insertion has many ways to fail: an offset may have no room, a table may not decode, a
recorded offset may come to lie between instructions. For a method whose code is well
laid out, and whose tables decode and record nothing behind its end, none of them comes
about. All offsets have room because none is beyond the length of the code, and the code
behind the fragment, with all that is recorded of it, is what it was, moved on.
-/

import Lookout.Proofs.MethodCode.Tables

namespace Lookout

/-! ### What lies inside the code -/

namespace VerificationType

/-- Whether the offset in the type, if there is one, is no larger than the code is long. -/
def Inside (codeLength : Nat) : VerificationType → Prop
  | .uninitialized offset => offset.toNat ≤ codeLength
  | _ => True

instance (codeLength : Nat) (type : VerificationType) : Decidable (type.Inside codeLength) :=
  match type with
  | .uninitialized offset => inferInstanceAs (Decidable (offset.toNat ≤ codeLength))
  | .top | .integer | .float | .double | .long | .null | .uninitializedThis | .object _ =>
      .isTrue trivial

theorem Inside.hasRoom {codeLength : Nat} {distance : UInt16} {type : VerificationType}
    (inside : type.Inside codeLength) (room : codeLength + distance.toNat < 65536) :
    type.HasRoom distance := by
  cases type with
  | uninitialized offset =>
      have : offset.toNat ≤ codeLength := inside
      show offset.toNat + distance.toNat < 65536
      omega
  | _ => trivial

end VerificationType

namespace MethodCode

/-- An attribute of the code of a method, by its name. If it is one of those whose offsets
are moved, it decodes, and records nothing behind the end of the code. Where frames
stand is not said here. -/
structure TableInside (codeLength : Nat) (name : String) (item : Attribute) : Prop where
  lines : name = LineEntry.attributeName →
    ∃ entries, DebugTable.lines item.info = .ok entries ∧
      ∀ entry ∈ entries, entry.start.toNat ≤ codeLength
  ranges : name = VariableRange.attributeName ∨ name = VariableRange.typeAttributeName →
    ∃ ranges, DebugTable.ranges name item.info = .ok ranges ∧
      ∀ range ∈ ranges, range.start.toNat + range.length.toNat ≤ codeLength
  frames : name = StackMapTable.attributeName →
    ∃ table, StackMapTable.ofBytes item.info = .ok table ∧
      ∀ frame ∈ table.frames, ∀ type ∈ frame.types, type.Inside codeLength

instance (codeLength : Nat) (name : String) (item : Attribute) :
    Decidable (TableInside codeLength name item) :=
  decidable_of_iff (_ ∧ _ ∧ _) ⟨fun ⟨lines, ranges, frames⟩ => ⟨lines, ranges, frames⟩,
    fun inside => ⟨inside.lines, inside.ranges, inside.frames⟩⟩

/-- The offsets of the frames in an attribute, if it is a stack map table. -/
def frameOffsets (pool : ConstantPool) (item : Attribute) : List Nat :=
  match pool.utf8 item.nameIndex, StackMapTable.ofBytes item.info with
  | .ok name, .ok table => if name = StackMapTable.attributeName then table.offsets else []
  | _, _ => []

/-- The offsets into the code that exceptions and frames record. -/
def ownReferences (pool : ConstantPool) (body : MethodCode) : List OffsetReference :=
  body.exceptions.flatMap ExceptionEntry.references ++
    body.attributes.flatMap fun item =>
      (frameOffsets pool item).map fun offset => ⟨offset, offset⟩

/-- A method whose code is well laid out, together with the offsets that exceptions and
frames record, and whose attributes have names and lie inside the code. -/
structure Valid (pool : ConstantPool) (body : MethodCode) : Prop where
  laidOut : checkLayout body.code (body.ownReferences pool) = .ok ()
  tables : ∀ item ∈ body.attributes, ∃ name, pool.utf8 item.nameIndex = .ok name ∧
    TableInside body.code.length name item

theorem frameOffsets_eq {pool : ConstantPool} {item : Attribute} {table : StackMapTable}
    (resolved : pool.utf8 item.nameIndex = .ok StackMapTable.attributeName)
    (read : StackMapTable.ofBytes item.info = .ok table) :
    frameOffsets pool item = table.offsets := by
  rw [frameOffsets, resolved, read]
  exact if_pos rfl

end MethodCode

/-! ### Every move has room -/

section Room

variable {codeLength : Nat} {distance : UInt16} (room : codeLength + distance.toNat < 65536)

include room

theorem exists_raisedOffset {offset : UInt16} (inside : offset.toNat ≤ codeLength)
    (name : String) : ∃ raised, raisedOffset name offset distance = .ok raised :=
  ⟨_, raisedOffset_eq_ok (by omega) name⟩

theorem ExceptionEntry.exists_shifted {entry : ExceptionEntry}
    (inside : ∀ reference ∈ entry.references, reference.offset ≤ codeLength) :
    ∃ moved, entry.shifted distance = .ok moved := by
  simp only [references, List.forall_mem_cons] at inside
  obtain ⟨startInside, stopInside, handlerInside, -⟩ := inside
  obtain ⟨start, startRaised⟩ := exists_raisedOffset room startInside MethodCode.attributeName
  obtain ⟨stop, stopRaised⟩ := exists_raisedOffset room stopInside MethodCode.attributeName
  obtain ⟨handler, handlerRaised⟩ :=
    exists_raisedOffset room handlerInside MethodCode.attributeName
  exact ⟨⟨start, stop, handler, entry.catchType⟩,
    shifted_eq_ok_iff.mpr ⟨startRaised, stopRaised, handlerRaised, rfl⟩⟩

theorem LineEntry.exists_moves {entry : LineEntry} (inside : entry.start.toNat ≤ codeLength) :
    ∃ moved, entry.Moves distance moved := by
  obtain ⟨start, raised⟩ := exists_raisedOffset room inside attributeName
  exact ⟨⟨start, entry.line⟩, raised, rfl⟩

/-- A range is moved by its start or by its length, and neither goes beyond its end. -/
theorem VariableRange.exists_moves (name : String) {range : VariableRange}
    (inside : range.start.toNat + range.length.toNat ≤ codeLength) :
    ∃ moved, range.Moves name distance moved := by
  by_cases fromStart : range.start = 0
  · obtain ⟨length, widened⟩ :=
      exists_raisedOffset room (Nat.le_of_add_left_le inside) name
    refine ⟨⟨0, length, range.details⟩, ?_, rfl⟩
    rw [shiftedBounds, if_pos fromStart]
    exact bindExcept_eq_ok_iff.mpr ⟨length, widened, rfl⟩
  · obtain ⟨start, raised⟩ := exists_raisedOffset room (Nat.le_of_add_right_le inside) name
    refine ⟨⟨start, range.length, range.details⟩, ?_, rfl⟩
    rw [shiftedBounds, if_neg fromStart]
    exact bindExcept_eq_ok_iff.mpr ⟨start, raised, rfl⟩

theorem DebugTable.exists_shiftLines {info : Bytes} {entries : List LineEntry}
    (read : lines info = .ok entries)
    (inside : ∀ entry ∈ entries, entry.start.toNat ≤ codeLength) :
    ∃ moved, shiftLines distance info = .ok moved := by
  obtain ⟨moved, moves⟩ := exists_forall₂ fun entry there =>
    LineEntry.exists_moves room (inside entry there)
  exact ⟨_, shiftLines_eq_ok_iff.mpr
    ⟨entries, moved, read, lines_bytes_of_moves read moves, moves⟩⟩

theorem DebugTable.exists_shiftVariables {name : String} {info : Bytes}
    {entries : List VariableRange} (read : ranges name info = .ok entries)
    (inside : ∀ range ∈ entries, range.start.toNat + range.length.toNat ≤ codeLength) :
    ∃ moved, shiftVariables name distance info = .ok moved := by
  obtain ⟨moved, moves⟩ := exists_forall₂ fun range there =>
    VariableRange.exists_moves room name (inside range there)
  exact ⟨_, shiftVariables_eq_ok_iff.mpr
    ⟨entries, moved, read, ranges_bytes_of_moves read moves, moves⟩⟩

namespace MethodCode

theorem exists_shiftFrames {info : Bytes} {table : StackMapTable}
    (read : StackMapTable.ofBytes info = .ok table)
    (offsetsInside : ∀ offset ∈ table.offsets, offset ≤ codeLength)
    (typesInside : ∀ frame ∈ table.frames, ∀ type ∈ frame.types, type.Inside codeLength) :
    ∃ moved, shiftFrames distance info = .ok moved := by
  have hasRoom : table.HasRoom distance := by
    refine ⟨fun first isFirst => ?_, fun frame member type there => ?_⟩
    · have := offsetsInside _ (StackMapTable.delta_mem_offsets isFirst)
      omega
    · exact (typesInside frame member type there).hasRoom room
  exact ⟨_, shiftFrames_eq_ok_iff.mpr ⟨table, read, hasRoom, rfl⟩⟩

/-- An attribute that lies inside the code can be moved, whatever its name is. -/
theorem exists_moveAttribute {pool : ConstantPool} {item : Attribute} {name : String}
    (resolved : pool.utf8 item.nameIndex = .ok name) (inside : TableInside codeLength name item)
    (offsetsInside : ∀ offset ∈ frameOffsets pool item, offset ≤ codeLength) :
    ∃ moved, moveAttribute pool distance item = .ok moved := by
  suffices moves : ∃ moved, Moves distance item name moved by
    exact moves.imp fun _ => moveAttribute_of_moves resolved
  by_cases lines : name = LineEntry.attributeName
  · obtain ⟨entries, read, entriesInside⟩ := inside.lines lines
    obtain ⟨info, shifted⟩ := DebugTable.exists_shiftLines room read entriesInside
    subst lines
    exact ⟨_, .lines shifted⟩
  by_cases ranges : name = VariableRange.attributeName ∨ name = VariableRange.typeAttributeName
  · obtain ⟨entries, read, entriesInside⟩ := inside.ranges ranges
    obtain ⟨info, shifted⟩ := DebugTable.exists_shiftVariables room read entriesInside
    exact ⟨_, .ranges ranges shifted⟩
  by_cases frames : name = StackMapTable.attributeName
  · obtain ⟨table, read, typesInside⟩ := inside.frames frames
    subst frames
    rw [frameOffsets_eq resolved read] at offsetsInside
    obtain ⟨moved, shifted⟩ := exists_shiftFrames room read offsetsInside typesInside
    exact ⟨_, .frames shifted⟩
  by_cases annotations : name ∈ typeAnnotationNames
  · exact ⟨_, .dropped annotations⟩
  · obtain ⟨notByDescriptor, notBySignature⟩ := not_or.mp ranges
    exact ⟨_, .untouched lines notByDescriptor notBySignature frames annotations⟩

end MethodCode

end Room

/-! ### What is recorded follows the code -/

theorem ExceptionEntry.Raised.references {distance : Nat} {entry moved : ExceptionEntry}
    (raised : Raised distance entry moved) :
    ∀ reference ∈ moved.references, ∃ original ∈ entry.references,
      reference.offset = original.offset + distance := by
  intro reference member
  simp only [ExceptionEntry.references, List.mem_cons, List.not_mem_nil, or_false] at member
  rcases member with rfl | rfl | rfl
  · exact ⟨_, List.mem_cons_self, raised.start⟩
  · exact ⟨_, .tail _ List.mem_cons_self, raised.stop⟩
  · exact ⟨_, .tail _ (.tail _ List.mem_cons_self), raised.handler⟩

namespace MethodCode

variable {pool : ConstantPool} {body : MethodCode} {fragment : Fragment}

/-- The frames of an attribute that was moved stand where they stood, moved on. -/
theorem frameOffsets_of_moveAttribute {distance : UInt16} {item : Attribute}
    {moved : MovedAttribute} (success : moveAttribute pool distance item = .ok moved) :
    moved.frameOffsets = [] ∨
      moved.frameOffsets = (frameOffsets pool item).map (· + distance.toNat) := by
  obtain ⟨name, resolved, moves⟩ := moves_of_moveAttribute success
  cases moves with
  | lines _ | ranges _ _ | dropped _ | untouched _ _ _ _ _ => exact .inl rfl
  | frames shifted =>
      obtain ⟨table, read, room, rfl⟩ := shiftFrames_eq_ok_iff.mp shifted
      refine .inr ?_
      rw [frameOffsets_eq resolved read]
      exact StackMapTable.offsets_raised room

/-- Every offset that is recorded after a move was recorded before, and is moved on. -/
theorem exists_ownReference {distance : UInt16} {exceptions : List ExceptionEntry}
    {moved : List MovedAttribute}
    (exceptionsMoved : body.exceptions.mapM (ExceptionEntry.shifted distance) = .ok exceptions)
    (attributesMoved : body.attributes.mapM (moveAttribute pool distance) = .ok moved) :
    ∀ reference ∈ movedReferences exceptions moved, ∃ original ∈ body.ownReferences pool,
      reference.offset = original.offset + distance.toNat := by
  intro reference member
  rcases List.mem_append.mp member with ofException | ofFrame
  · obtain ⟨entry, there, recorded⟩ := List.mem_flatMap.mp ofException
    obtain ⟨old, oldThere, shifted⟩ :=
      exists_of_mem_forall₂ (mapExcept_eq_ok_iff.mp exceptionsMoved) there
    obtain ⟨original, oldRecorded, follows⟩ :=
      (ExceptionEntry.raised_of_shifted shifted).references reference recorded
    exact ⟨original, List.mem_append_left _ (List.mem_flatMap.mpr ⟨old, oldThere, oldRecorded⟩),
      follows⟩
  · obtain ⟨result, there, recorded⟩ := List.mem_flatMap.mp ofFrame
    obtain ⟨offset, stands, rfl⟩ := List.mem_map.mp recorded
    obtain ⟨item, itemThere, success⟩ :=
      exists_of_mem_forall₂ (mapExcept_eq_ok_iff.mp attributesMoved) there
    rcases frameOffsets_of_moveAttribute success with none | offsets
    · rw [none] at stands
      cases stands
    · rw [offsets] at stands
      obtain ⟨old, oldStands, rfl⟩ := List.mem_map.mp stands
      exact ⟨⟨old, old⟩, List.mem_append_right _ (List.mem_flatMap.mpr
        ⟨item, itemThere, List.mem_map_of_mem oldStands⟩), rfl⟩

/-- A valid method takes in every fragment that is well laid out, keeps the alignment, and
leaves room: the insertion is not refused. -/
theorem exists_insertPrologue (valid : body.Valid pool) (aligned : fragment.length % 4 = 0)
    (laidOut : checkLayout fragment.code [] = .ok ())
    (short : fragment.length + body.code.length ≤ maxCodeLength) :
    ∃ extended, body.insertPrologue pool fragment = .ok extended := by
  rw [maxCodeLength] at short
  have distance : (UInt16.ofNat fragment.length).toNat = fragment.length :=
    Word.toNat_ofNat16 (by omega)
  have room : body.code.length + (UInt16.ofNat fragment.length).toNat < 65536 := by omega
  have recordedInside := fun reference (member : reference ∈ body.ownReferences pool) =>
    offset_le_of_checkLayout valid.laidOut member
  obtain ⟨exceptions, exceptionsMoved⟩ : ∃ exceptions, body.exceptions.mapM
      (ExceptionEntry.shifted (UInt16.ofNat fragment.length)) = .ok exceptions := by
    refine exists_mapExcept_eq_ok fun entry there => ?_
    refine ExceptionEntry.exists_shifted room fun reference recorded => ?_
    exact recordedInside reference
      (List.mem_append_left _ (List.mem_flatMap.mpr ⟨entry, there, recorded⟩))
  obtain ⟨moved, attributesMoved⟩ : ∃ moved, body.attributes.mapM
      (moveAttribute pool (UInt16.ofNat fragment.length)) = .ok moved := by
    refine exists_mapExcept_eq_ok fun item there => ?_
    obtain ⟨name, resolved, inside⟩ := valid.tables item there
    refine exists_moveAttribute room resolved inside fun offset stands => ?_
    exact recordedInside ⟨offset, offset⟩ (List.mem_append_right _
      (List.mem_flatMap.mpr ⟨item, there, List.mem_map_of_mem stands⟩))
  have follow := exists_ownReference exceptionsMoved attributesMoved
  rw [distance] at follow
  exact ⟨_, insertPrologue_eq_ok_iff.mpr ⟨aligned, short, exceptions, moved, exceptionsMoved,
    attributesMoved, checkLayout_append aligned laidOut valid.laidOut follow, rfl⟩⟩

/-- A pool with the names of those attributes and of stack map tables. -/
def frameNames : ConstantPool where
  slots := tableNames.slots.push
    (some (.utf8 (Text.ModifiedUtf8.encode StackMapTable.attributeName)))

/-- The method with a frame at its last instruction, where a value is on the stack that
was created at its second instruction. -/
def frameSample : MethodCode :=
  { tableSample with attributes := tableSample.attributes ++ [⟨4, [0, 1, 66, 8, 0, 1]⟩] }

theorem valid_frameSample : frameSample.Valid frameNames :=
  ⟨eq_ok_of_toOption (by decide +kernel), by decide +kernel⟩

/-- The method takes in four bytes that do nothing. -/
theorem exists_insertPrologue_frameSample :
    frameSample.ownReferences frameNames = [⟨0, 0⟩, ⟨0, 2⟩, ⟨2, 2⟩, ⟨2, 2⟩] ∧
      ∃ extended, frameSample.insertPrologue frameNames fourNops = .ok extended :=
  ⟨by decide +kernel, exists_insertPrologue valid_frameSample (by decide)
    (eq_ok_of_toOption (by decide +kernel)) (by decide)⟩

end MethodCode

end Lookout
