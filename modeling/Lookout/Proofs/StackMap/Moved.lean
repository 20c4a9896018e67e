/-
# What a move does to a stack map table

A move that succeeds leaves every frame of the kind it was, and every frame and every
uninitialized value the distance further on; nothing else changes. It fails exactly if one
of the offsets that it would have to raise has no room. Two moves in a row come to a single
one by both distances.
-/

import Lookout.Proofs.StackMap.Shift

namespace Lookout

/-! ### What has moved -/

/-- The second type is the first one with its offset, if there is one, moved on. -/
inductive VerificationType.Moved (distance : Nat) : VerificationType → VerificationType → Prop where
  | uninitialized {offset moved : UInt16} : moved.toNat = offset.toNat + distance →
      Moved distance (.uninitialized offset) (.uninitialized moved)
  | other {type : VerificationType} : (∀ offset, type ≠ .uninitialized offset) →
      Moved distance type type

/-- The second frame is of the kind of the first one, with all its types moved on. Nothing
is said of the deltas. -/
inductive StackMapFrame.Moved (distance : Nat) : StackMapFrame → StackMapFrame → Prop where
  | same (delta delta' : UInt16) : Moved distance (.same delta) (.same delta')
  | sameLocalsOneStackItem (delta delta' : UInt16) {stack stack' : VerificationType} :
      stack.Moved distance stack' →
        Moved distance (.sameLocalsOneStackItem delta stack) (.sameLocalsOneStackItem delta' stack')
  | chop (delta delta' : UInt16) (count : UInt8) :
      Moved distance (.chop delta count) (.chop delta' count)
  | append (delta delta' : UInt16) {locals locals' : List VerificationType} :
      List.Forall₂ (VerificationType.Moved distance) locals locals' →
        Moved distance (.append delta locals) (.append delta' locals')
  | full (delta delta' : UInt16) {locals locals' stack stack' : List VerificationType} :
      List.Forall₂ (VerificationType.Moved distance) locals locals' →
        List.Forall₂ (VerificationType.Moved distance) stack stack' →
          Moved distance (.full delta locals stack) (.full delta' locals' stack')

/-- The second table is the first one for a body that stands `distance` bytes further on. -/
structure StackMapTable.Moved (distance : Nat) (before after : StackMapTable) : Prop where
  offsets : after.offsets = before.offsets.map (· + distance)
  frames : List.Forall₂ (StackMapFrame.Moved distance) before.frames after.frames
  laterDeltas : after.frames.tail.map StackMapFrame.delta =
    before.frames.tail.map StackMapFrame.delta

/-- There is room for two distances together if there is for the one and then the other. -/
theorem fits_add_iff {offset distance further : UInt16}
    (short : distance.toNat + further.toNat < 65536) :
    offset.toNat + (distance + further).toNat < 65536 ↔
      offset.toNat + distance.toNat < 65536 ∧
        (offset + distance).toNat + further.toNat < 65536 := by
  rw [UInt16.toNat_add, UInt16.toNat_add, Nat.mod_eq_of_lt short]
  omega

namespace VerificationType

variable {distance : UInt16} {type : VerificationType}

theorem HasRoom.moved (room : type.HasRoom distance) :
    type.Moved distance.toNat (type.raised distance) := by
  cases type with
  | uninitialized offset =>
      refine .uninitialized ?_
      rw [UInt16.toNat_add, Nat.mod_eq_of_lt room]
  | _ => exact .other nofun

theorem not_hasRoom_iff : ¬type.HasRoom distance ↔
    ∃ offset, type = .uninitialized offset ∧ 65535 - distance.toNat < offset.toNat := by
  cases type with
  | uninitialized offset =>
      have := distance.toNat_lt
      simp only [HasRoom, uninitialized.injEq, exists_eq_left']
      omega
  | _ => simp [HasRoom]

theorem hasRoom_add_iff {further : UInt16}
    (short : distance.toNat + further.toNat < 65536) :
    type.HasRoom (distance + further) ↔
      type.HasRoom distance ∧ (type.raised distance).HasRoom further := by
  cases type with
  | uninitialized offset => exact fits_add_iff short
  | _ => simp [HasRoom, raised]

theorem raised_raised (first second : UInt16) (type : VerificationType) :
    (type.raised first).raised second = type.raised (first + second) := by
  cases type with
  | uninitialized offset => exact congrArg uninitialized (UInt16.add_assoc _ _ _)
  | _ => rfl

end VerificationType

namespace StackMapFrame

theorem raisedTypes_raisedTypes (first second : UInt16) (frame : StackMapFrame) :
    (frame.raisedTypes first).raisedTypes second = frame.raisedTypes (first + second) := by
  cases frame <;> simp [raisedTypes, VerificationType.raised_raised]

theorem raisedTypes_withDelta (distance delta : UInt16) (frame : StackMapFrame) :
    (frame.withDelta delta).raisedTypes distance =
      (frame.raisedTypes distance).withDelta delta := by
  cases frame <;> rfl

theorem types_raisedTypes (distance : UInt16) (frame : StackMapFrame) :
    (frame.raisedTypes distance).types = frame.types.map (VerificationType.raised distance) := by
  cases frame <;> simp [raisedTypes, types]

theorem withDelta_withDelta (delta delta' : UInt16) (frame : StackMapFrame) :
    (frame.withDelta delta).withDelta delta' = frame.withDelta delta' := by
  cases frame <;> rfl

private theorem moved_map {distance : UInt16} {values : List VerificationType}
    (room : ∀ type ∈ values, type.HasRoom distance) :
    List.Forall₂ (VerificationType.Moved distance.toNat) values
      (values.map (VerificationType.raised distance)) := by
  rw [List.forall₂_map_right_iff]
  exact List.forall₂_same.mpr fun type member => (room type member).moved

/-- A frame whose types have room keeps its kind, whatever becomes of its delta. -/
theorem moved_withDelta {distance : UInt16} {frame : StackMapFrame}
    (room : ∀ type ∈ frame.types, type.HasRoom distance) (delta : UInt16) :
    frame.Moved distance.toNat ((frame.raisedTypes distance).withDelta delta) := by
  cases frame with
  | same _ => exact .same _ _
  | sameLocalsOneStackItem _ stack =>
      exact .sameLocalsOneStackItem _ _ (room stack (List.mem_singleton_self _)).moved
  | chop _ _ => exact .chop _ _ _
  | append _ locals => exact .append _ _ (moved_map room)
  | full _ locals stack =>
      simp only [types, List.mem_append, or_imp, forall_and] at room
      exact .full _ _ (moved_map room.1) (moved_map room.2)

theorem withDelta_delta (frame : StackMapFrame) : frame.withDelta frame.delta = frame := by
  cases frame <;> rfl

end StackMapFrame

namespace StackMapTable

variable {distance further : UInt16} {table : StackMapTable}

theorem hasRoom_iff : table.HasRoom distance ↔
    (∀ first ∈ table.frames.head?, first.delta.toNat + distance.toNat < 65536) ∧
      ∀ frame ∈ table.frames, ∀ type ∈ frame.types, type.HasRoom distance :=
  ⟨fun room => ⟨room.first, room.types⟩, fun ⟨first, types⟩ => ⟨first, types⟩⟩

theorem HasRoom.moved (room : table.HasRoom distance) :
    table.Moved distance.toNat (table.raised distance) where
  offsets := offsets_raised room
  frames := by
    have kept (frame : StackMapFrame) (member : frame ∈ table.frames) :
        frame.Moved distance.toNat (frame.raisedTypes distance) := by
      have moved := frame.moved_withDelta (room.types frame member)
        (frame.raisedTypes distance).delta
      rwa [StackMapFrame.withDelta_delta] at moved
    obtain ⟨frames⟩ := table
    cases frames with
    | nil => exact .nil
    | cons first later =>
        refine .cons ?_ (List.forall₂_map_right_iff.mpr (List.forall₂_same.mpr fun frame member =>
          kept frame (List.mem_cons_of_mem _ member)))
        rw [StackMapFrame.raisedTypes_withDelta]
        exact first.moved_withDelta (room.types first List.mem_cons_self) _
  laterDeltas := by
    obtain ⟨frames⟩ := table
    cases frames with
    | nil => rfl
    | cons first later => simp [raised, raisedFirst, Function.comp_def]

theorem raised_raised (first second : UInt16) (table : StackMapTable) :
    (table.raised first).raised second = table.raised (first + second) := by
  obtain ⟨frames⟩ := table
  cases frames with
  | nil => rfl
  | cons frame later =>
      simp [raised, raisedFirst, StackMapFrame.raisedTypes_withDelta,
        StackMapFrame.raisedTypes_raisedTypes, StackMapFrame.withDelta_withDelta, UInt16.add_assoc,
        Function.comp_def]

theorem hasRoom_add_iff (short : distance.toNat + further.toNat < 65536) :
    table.HasRoom (distance + further) ↔
      table.HasRoom distance ∧ (table.raised distance).HasRoom further := by
  have types (frame : StackMapFrame) :
      (∀ type ∈ frame.types, type.HasRoom (distance + further)) ↔
        (∀ type ∈ frame.types, type.HasRoom distance) ∧
          ∀ type ∈ (frame.raisedTypes distance).types, type.HasRoom further := by
    simp only [StackMapFrame.types_raisedTypes, List.forall_mem_map, ← forall_and,
      VerificationType.hasRoom_add_iff short]
  obtain ⟨frames⟩ := table
  cases frames with
  | nil => simp [hasRoom_iff, raised, raisedFirst]
  | cons first later =>
      simp only [hasRoom_iff, raised, raisedFirst, List.map_cons, List.head?_cons,
        Option.mem_some_iff, forall_eq', List.forall_mem_cons, List.forall_mem_map, types,
        StackMapFrame.raisedTypes_withDelta, StackMapFrame.delta_withDelta,
        StackMapFrame.types_withDelta, fits_add_iff short, forall_and]
      tauto

/-- Two moves in a row come to one move by both distances, and succeed if that does. -/
theorem shift_add_eq_ok_iff (short : distance.toNat + further.toNat < 65536)
    {moved : StackMapTable} :
    table.shift (distance + further) = (.ok (), moved) ↔
      ∃ between, table.shift distance = (.ok (), between) ∧
        between.shift further = (.ok (), moved) := by
  simp only [shift_eq_ok_iff, hasRoom_add_iff short]
  constructor
  · rintro ⟨⟨room, roomAfter⟩, rfl⟩
    exact ⟨_, ⟨room, rfl⟩, roomAfter, (raised_raised distance further table).symm⟩
  · rintro ⟨_, ⟨room, rfl⟩, roomAfter, rfl⟩
    exact ⟨⟨room, roomAfter⟩, raised_raised distance further table⟩

theorem exists_shift_eq_error_iff :
    (∃ fault, (table.shift distance).1 = .error fault) ↔ ¬table.HasRoom distance := by
  constructor
  · rintro ⟨fault, failed⟩ room
    rw [shift_eq_ok_iff.mpr ⟨room, rfl⟩] at failed
    cases failed
  · intro noRoom
    cases shifted : table.shift distance with
    | mk result moved =>
        cases result with
        | error fault => exact ⟨fault, rfl⟩
        | ok _ => exact absurd (shift_eq_ok_iff.mp shifted).1 noRoom

theorem not_hasRoom_iff : ¬table.HasRoom distance ↔
    (∃ first ∈ table.frames.head?, 65535 - distance.toNat < first.delta.toNat) ∨
      ∃ frame ∈ table.frames, ∃ offset, .uninitialized offset ∈ frame.types ∧
        65535 - distance.toNat < offset.toNat := by
  have beyond (delta : UInt16) :
      ¬delta.toNat + distance.toNat < 65536 ↔ 65535 - distance.toNat < delta.toNat := by
    have := distance.toNat_lt
    omega
  rw [hasRoom_iff, not_and_or]
  simp only [not_forall, exists_prop, beyond, VerificationType.not_hasRoom_iff]
  refine or_congr_right (exists_congr fun frame => and_congr_right fun _ => ?_)
  constructor
  · rintro ⟨_, member, offset, rfl, high⟩
    exact ⟨offset, member, high⟩
  · rintro ⟨offset, member, high⟩
    exact ⟨_, member, offset, rfl, high⟩

/-- A move that succeeds moves just the offsets, two moves in a row are one move by both
distances, and a move fails exactly if an offset that it would raise goes beyond 16 bits. -/
theorem shift_moves_offsets (table : StackMapTable) (distance : UInt16) :
    (∀ moved, table.shift distance = (.ok (), moved) → table.Moved distance.toNat moved) ∧
      (∀ further moved, distance.toNat + further.toNat < 65536 →
        (table.shift (distance + further) = (.ok (), moved) ↔
          ∃ between, table.shift distance = (.ok (), between) ∧
            between.shift further = (.ok (), moved))) ∧
      ((∃ fault, (table.shift distance).1 = .error fault) ↔
        (∃ first ∈ table.frames.head?, 65535 - distance.toNat < first.delta.toNat) ∨
          ∃ frame ∈ table.frames, ∃ offset, .uninitialized offset ∈ frame.types ∧
            65535 - distance.toNat < offset.toNat) := by
  refine ⟨fun moved success => ?_, fun further moved short => shift_add_eq_ok_iff short, ?_⟩
  · obtain ⟨room, rfl⟩ := shift_eq_ok_iff.mp success
    exact room.moved
  · exact exists_shift_eq_error_iff.trans not_hasRoom_iff

/-- Frames at 10, 15 and 76, of which the first and the last hold uninitialized values. -/
def uninitializedSample : StackMapTable :=
  ⟨[.full 10 [.integer, .uninitialized 3] [.uninitialized 7], .chop 4 1,
    .append 60 [.object 2, .uninitialized 65520]]⟩

/-- The sample can be moved by 8 and then by 4, and so by 12, but not by 16. -/
theorem shift_moves_offsets_uninitializedSample :
    ∃ moved, uninitializedSample.shift 12 = (.ok (), moved) ∧
      uninitializedSample.Moved 12 moved ∧ moved.offsets = [22, 27, 88] ∧
      ∃ fault, (uninitializedSample.shift 16).1 = .error fault := by
  have shifted : ∃ between, uninitializedSample.shift 8 = (.ok (), between) ∧
      between.shift 4 = (.ok (), ⟨[.full 22 [.integer, .uninitialized 15] [.uninitialized 19],
        .chop 4 1, .append 60 [.object 2, .uninitialized 65532]]⟩) :=
    ⟨_, rfl, rfl⟩
  have atOnce := ((shift_moves_offsets uninitializedSample 8).2.1 4 _ (by decide)).mpr shifted
  have moved := (shift_moves_offsets uninitializedSample 12).1 _ atOnce
  have tooFar := (shift_moves_offsets uninitializedSample 16).2.2.mpr
    (.inr ⟨_, List.mem_of_mem_getLast? rfl, 65520, by decide, by decide⟩)
  exact ⟨_, atOnce, moved, rfl, tooFar⟩

end StackMapTable

end Lookout
