/-
# Where protected ranges start, and where handlers and frames stand

Some of the offsets that a method records name an instruction: the first one of a protected
range, the first one of a handler, and the one that a frame describes. Only the end of a
range may be the end of the code. An insertion checks all of them in one list, in which it
lets the end of the code pass whatever records it. So the offsets that have to name an
instruction do so afterwards exactly if none of them named the end of the body before.
-/

import Lookout.Proofs.Instruction.Layout
import Lookout.Proofs.MethodCode.Composition

namespace Lookout

/-- The offsets that have to be those of instructions: where the range starts, and where its
handler does. -/
def ExceptionEntry.anchors (entry : ExceptionEntry) : List Nat :=
  [entry.start.toNat, entry.handler.toNat]

theorem ExceptionEntry.Raised.anchors {distance : Nat} {entry moved : ExceptionEntry}
    (raised : Raised distance entry moved) :
    moved.anchors = entry.anchors.map (· + distance) := by
  rw [ExceptionEntry.anchors, raised.start, raised.handler]
  rfl

theorem ExceptionEntry.exists_reference_of_anchor {entry : ExceptionEntry} {anchor : Nat}
    (member : anchor ∈ entry.anchors) :
    ∃ reference ∈ entry.references, reference.offset = anchor := by
  simp only [ExceptionEntry.anchors, List.mem_cons, List.not_mem_nil, or_false] at member
  rcases member with rfl | rfl
  · exact ⟨_, List.mem_cons_self, rfl⟩
  · exact ⟨_, .tail _ (.tail _ List.mem_cons_self), rfl⟩

/-- Instructions start inside the code. -/
theorem Instruction.Decoded.offset_lt {code : Bytes} {instructions : List Instruction}
    (decoded : Decoded code 0 instructions) {instruction : Instruction}
    (member : instruction ∈ instructions) : instruction.offset < code.length := by
  have inside := (Listing.tiles_of_decoded decoded).2.offset_lt member
  rwa [List.drop_zero, Nat.zero_add] at inside

/-- Of the offsets that may be recorded, only the end of the code is that of no
instruction. -/
theorem Instruction.Recordable.exists_landing_iff {code : Bytes} {instructions : List Instruction}
    {offset : Nat} (recordable : Recordable code instructions offset)
    (decoded : Decoded code 0 instructions) :
    (∃ landing ∈ instructions, landing.offset = offset) ↔ offset ≠ code.length := by
  constructor
  · rintro ⟨landing, member, rfl⟩
    exact Nat.ne_of_lt (decoded.offset_lt member)
  · exact recordable.resolve_left

namespace MethodCode

/-- The offsets of a method that have to be those of instructions. -/
def anchors (pool : ConstantPool) (body : MethodCode) : List Nat :=
  body.exceptions.flatMap ExceptionEntry.anchors ++ body.attributes.flatMap (frameOffsets pool)

section Frames

variable {pool : ConstantPool} {distance : UInt16}

theorem frameOffsets_of_ne {item : Attribute} {name : String}
    (resolved : pool.utf8 item.nameIndex = .ok name) (other : name ≠ StackMapTable.attributeName) :
    frameOffsets pool item = [] := by
  rw [frameOffsets, resolved]
  cases StackMapTable.ofBytes item.info with
  | error _ => rfl
  | ok _ => exact if_neg other

/-- A table of frames that was moved is written so that it is read back. -/
theorem ofBytes_of_shiftFrames {info : Bytes} {table : StackMapTable}
    (success : shiftFrames distance info = .ok table) :
    StackMapTable.ofBytes table.bytes = .ok table := by
  obtain ⟨original, read, -, rfl⟩ := shiftFrames_eq_ok_iff.mp success
  exact ((StackMapTable.fits_of_ofBytes read).raised distance).ofBytes_bytes

/-- Attributes of other names have no frames, whether they are kept or not. -/
private theorem frameOffsets_of_kept_of_ne {item : Attribute} {name : String}
    (resolved : pool.utf8 item.nameIndex = .ok name) (other : name ≠ StackMapTable.attributeName)
    {kept : Option Attribute} (sameName : ∀ same ∈ kept, same.nameIndex = item.nameIndex) :
    kept.toList.flatMap (frameOffsets pool) = [] ∧
      [] = (frameOffsets pool item).map (· + distance.toNat) := by
  rw [frameOffsets_of_ne resolved other]
  refine ⟨List.flatMap_eq_nil_iff.mpr fun same member => ?_, rfl⟩
  rw [← sameName same (Option.mem_toList.mp member)] at resolved
  exact frameOffsets_of_ne resolved other

/-- What is kept of an attribute has the frames that were checked, which are those of before,
moved on. -/
theorem frameOffsets_of_kept {item : Attribute} {moved : MovedAttribute}
    (success : moveAttribute pool distance item = .ok moved) :
    moved.kept.toList.flatMap (frameOffsets pool) = moved.frameOffsets ∧
      moved.frameOffsets = (frameOffsets pool item).map (· + distance.toNat) := by
  obtain ⟨name, resolved, moves⟩ := moves_of_moveAttribute success
  cases moves with
  | lines _ => exact frameOffsets_of_kept_of_ne resolved (by decide) (by rintro _ ⟨⟩; rfl)
  | ranges named _ =>
      have other : name ≠ StackMapTable.attributeName := by rcases named with rfl | rfl <;> decide
      exact frameOffsets_of_kept_of_ne resolved other (by rintro _ ⟨⟩; rfl)
  | @frames table shifted =>
      have kept : frameOffsets pool { item with info := table.bytes } = table.offsets :=
        frameOffsets_eq resolved (ofBytes_of_shiftFrames shifted)
      obtain ⟨original, read, room, rfl⟩ := shiftFrames_eq_ok_iff.mp shifted
      refine ⟨by simp [kept], ?_⟩
      rw [frameOffsets_eq resolved read]
      exact StackMapTable.offsets_raised room
  | dropped annotations =>
      have other : name ≠ StackMapTable.attributeName := by
        simp only [typeAnnotationNames, List.mem_cons, List.not_mem_nil, or_false] at annotations
        rcases annotations with rfl | rfl <;> decide
      exact frameOffsets_of_kept_of_ne resolved other (by rintro _ ⟨⟩)
  | untouched _ _ _ other _ =>
      exact frameOffsets_of_kept_of_ne resolved other (by rintro _ ⟨⟩; rfl)

/-- Whatever is kept under the name of a table of frames is one. -/
theorem exists_table_of_kept {item kept : Attribute} {moved : MovedAttribute}
    (success : moveAttribute pool distance item = .ok moved) (isKept : moved.kept = some kept)
    (named : pool.utf8 kept.nameIndex = .ok StackMapTable.attributeName) :
    ∃ table, StackMapTable.ofBytes kept.info = .ok table := by
  obtain ⟨name, resolved, moves⟩ := moves_of_moveAttribute success
  have sameName (info : Bytes) (same : { item with info } = kept) :
      name = StackMapTable.attributeName := by
    subst same
    exact Except.ok.inj (resolved.symm.trans named)
  cases moves with
  | lines _ => exact absurd (sameName _ (Option.some.inj isKept)) (by decide)
  | ranges ofRanges _ =>
      have other : name ≠ StackMapTable.attributeName := by
        rcases ofRanges with rfl | rfl <;> decide
      exact absurd (sameName _ (Option.some.inj isKept)) other
  | frames shifted =>
      cases isKept
      exact ⟨_, ofBytes_of_shiftFrames shifted⟩
  | dropped _ => cases isKept
  | untouched _ _ _ other _ => exact absurd (sameName item.info (Option.some.inj isKept)) other

end Frames

section Insertion

variable {pool : ConstantPool} {body extended : MethodCode} {fragment : Fragment}

/-- The anchors of all entries or attributes are those of before, moved on, if those of each
one are. -/
private theorem flatMap_of_forall₂ {α β : Type} {related : α → β → Prop} {distance : Nat}
    {before : α → List Nat} {after : β → List Nat} {olds : List α} {news : List β}
    (all : List.Forall₂ related olds news)
    (follow : ∀ old new, related old new → after new = (before old).map (· + distance)) :
    news.flatMap after = (olds.flatMap before).map (· + distance) := by
  induction all with
  | nil => rfl
  | cons first _ ih =>
      rw [List.flatMap_cons, List.flatMap_cons, List.map_append, follow _ _ first, ih]

theorem flatMap_filterMap_kept (values : Attribute → List Nat) (moved : List MovedAttribute) :
    (moved.filterMap MovedAttribute.kept).flatMap values =
      moved.flatMap fun item => item.kept.toList.flatMap values := by
  induction moved with
  | nil => rfl
  | cons item later ih =>
      rw [List.filterMap_cons, List.flatMap_cons, ← ih]
      cases item.kept with
      | none => rfl
      | some kept => simp

/-- An insertion moves all anchors on, and what it checks are the anchors and the ends of
ranges. -/
theorem anchors_of_insertPrologue (inserted : body.insertPrologue pool fragment = .ok extended) :
    extended.anchors pool = (body.anchors pool).map (· + fragment.length) ∧
      ∃ references, checkLayout extended.code references = .ok () ∧
        (∀ anchor ∈ extended.anchors pool,
          ∃ reference ∈ references, reference.offset = anchor) ∧
        ∀ entry ∈ extended.exceptions,
          ∃ reference ∈ references, reference.offset = entry.stop.toNat := by
  obtain ⟨-, short, exceptions, moved, exceptionsMoved, attributesMoved, laidOut, rfl⟩ :=
    insertPrologue_eq_ok_iff.mp inserted
  have distance : (UInt16.ofNat fragment.length).toNat = fragment.length :=
    Word.toNat_ofNat16 (by rw [maxCodeLength] at short; omega)
  rw [← distance]
  have kept := mapExcept_eq_ok_iff.mp attributesMoved
  refine ⟨?_, movedReferences exceptions moved, laidOut, ?_, ?_⟩
  · show exceptions.flatMap _ ++ (moved.filterMap MovedAttribute.kept).flatMap _ = _
    rw [anchors, List.map_append, flatMap_filterMap_kept]
    congr 1
    · exact flatMap_of_forall₂ (mapExcept_eq_ok_iff.mp exceptionsMoved) fun _ _ shifted =>
        (ExceptionEntry.raised_of_shifted shifted).anchors
    · refine flatMap_of_forall₂ kept fun _ _ success => ?_
      obtain ⟨checked, follow⟩ := frameOffsets_of_kept success
      exact checked.trans follow
  · intro anchor member
    rcases List.mem_append.mp member with ofException | ofFrame
    · obtain ⟨entry, there, isAnchor⟩ := List.mem_flatMap.mp ofException
      obtain ⟨reference, recorded, same⟩ := entry.exists_reference_of_anchor isAnchor
      exact ⟨reference,
        List.mem_append_left _ (List.mem_flatMap.mpr ⟨entry, there, recorded⟩), same⟩
    · rw [flatMap_filterMap_kept] at ofFrame
      obtain ⟨item, there, isAnchor⟩ := List.mem_flatMap.mp ofFrame
      obtain ⟨original, -, success⟩ := exists_of_mem_forall₂ kept there
      rw [(frameOffsets_of_kept success).1] at isAnchor
      exact ⟨⟨anchor, anchor⟩, List.mem_append_right _ (List.mem_flatMap.mpr
        ⟨item, there, List.mem_map_of_mem isAnchor⟩), rfl⟩
  · intro entry there
    exact ⟨⟨entry.start.toNat, entry.stop.toNat⟩, List.mem_append_left _
      (List.mem_flatMap.mpr ⟨entry, there, .tail _ List.mem_cons_self⟩), rfl⟩

/-- An insertion that succeeds moves on all offsets that have to be those of instructions.
Each of them is then that of an instruction, unless it is the end of the code. So all of
them are exactly if the body had none at its end. The ends of ranges are offsets of
instructions, or the end of the code, and all tables of frames can be read. -/
theorem insertPrologue_keeps_anchors (inserted : body.insertPrologue pool fragment = .ok extended) :
    ∃ instructions, Instruction.Decoded extended.code 0 instructions ∧
      extended.anchors pool = (body.anchors pool).map (· + fragment.length) ∧
      (∀ anchor ∈ extended.anchors pool,
        (∃ landing ∈ instructions, landing.offset = anchor) ↔ anchor ≠ extended.code.length) ∧
      ((∀ anchor ∈ extended.anchors pool, ∃ landing ∈ instructions, landing.offset = anchor) ↔
        body.code.length ∉ body.anchors pool) ∧
      (∀ entry ∈ extended.exceptions,
        Instruction.Recordable extended.code instructions entry.stop.toNat) ∧
      ∀ item ∈ extended.attributes, pool.utf8 item.nameIndex = .ok StackMapTable.attributeName →
        ∃ table, StackMapTable.ofBytes item.info = .ok table := by
  obtain ⟨moved, references, laidOut, anchorsRecorded, stopsRecorded⟩ :=
    anchors_of_insertPrologue inserted
  obtain ⟨instructions, decoded, -, recordable⟩ :=
    Listing.checkLayout_eq_ok_iff_decoded.mp laidOut
  have landing (anchor : Nat) (member : anchor ∈ extended.anchors pool) :
      (∃ landing ∈ instructions, landing.offset = anchor) ↔ anchor ≠ extended.code.length := by
    obtain ⟨reference, recorded, rfl⟩ := anchorsRecorded anchor member
    exact (recordable reference recorded).exists_landing_iff decoded
  refine ⟨instructions, decoded, moved, landing, ?_, fun entry there => ?_, ?_⟩
  · have longer : extended.code.length = body.code.length + fragment.length := by
      obtain ⟨-, -, _, _, -, -, -, rfl⟩ := insertPrologue_eq_ok_iff.mp inserted
      rw [List.length_append, Fragment.length, Nat.add_comm]
    constructor
    · intro allLand atEnd
      have movedEnd : extended.code.length ∈ extended.anchors pool := by
        rw [moved, longer]
        exact List.mem_map_of_mem atEnd
      exact (landing _ movedEnd).mp (allLand _ movedEnd) rfl
    · intro noneAtEnd anchor member
      refine (landing anchor member).mpr fun atEnd => noneAtEnd ?_
      rw [moved] at member
      obtain ⟨original, there, rfl⟩ := List.mem_map.mp member
      rw [longer] at atEnd
      rwa [← Nat.add_right_cancel atEnd]
  · obtain ⟨reference, recorded, same⟩ := stopsRecorded entry there
    exact same ▸ recordable reference recorded
  · obtain ⟨-, -, _, _, -, attributesMoved, -, rfl⟩ := insertPrologue_eq_ok_iff.mp inserted
    intro kept there named
    obtain ⟨item, itemThere, isKept⟩ := List.mem_filterMap.mp there
    obtain ⟨_, -, success⟩ :=
      exists_of_mem_forall₂ (mapExcept_eq_ok_iff.mp attributesMoved) itemThere
    exact exists_table_of_kept success isKept named

end Insertion

/-- Behind four bytes that do nothing, the handler and the frame of the sample are at its
last instruction still. -/
theorem insertPrologue_keeps_anchors_frameSample :
    ∃ extended, frameSample.insertPrologue frameNames fourNops = .ok extended ∧
      extended.anchors frameNames = [4, 6, 6] ∧
      ∃ instructions, Instruction.Decoded extended.code 0 instructions ∧
        ∀ anchor ∈ extended.anchors frameNames,
          ∃ landing ∈ instructions, landing.offset = anchor := by
  obtain ⟨extended, inserted, anchors⟩ : ∃ extended,
      frameSample.insertPrologue frameNames fourNops = .ok extended ∧
        extended.anchors frameNames = [4, 6, 6] := by
    decide +kernel
  obtain ⟨instructions, decoded, -, -, allLand, -⟩ := insertPrologue_keeps_anchors inserted
  exact ⟨extended, inserted, anchors, instructions, decoded, allLand.mpr (by decide +kernel)⟩

/-- A `return` that is protected by a handler behind it, where there is a frame as well. -/
def handlerAtEndSample : MethodCode :=
  { plain 1 1 [Opcode.returnVoid] with
    exceptions := [⟨0, 1, 1, 0⟩]
    attributes := [⟨4, [0, 1, 1]⟩] }

/-- The insertion into the sample is not refused. Afterwards the handler and the frame are
still at the end of the code, where no instruction is. -/
theorem insertPrologue_handlerAtEndSample :
    ∃ extended, handlerAtEndSample.insertPrologue frameNames fourNops = .ok extended ∧
      extended.exceptions = [⟨4, 5, 5, 0⟩] ∧
      extended.attributes.flatMap (frameOffsets frameNames) = [5] ∧
      (Listing.ofCode extended.code).failure = none ∧
      ¬∃ landing ∈ (Listing.ofCode extended.code).instructions, landing.offset = 5 := by
  decide +kernel

end MethodCode

end Lookout
