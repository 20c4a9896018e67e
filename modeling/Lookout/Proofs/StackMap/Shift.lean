/-
# Which offsets of a stack map table move

A move that succeeds raises the delta of the first frame and the offset of every
uninitialized value by the distance, and changes nothing else; it fails if one of
these offsets has no room. Types are visited under a flag that an offset without
room takes down for good, so what matters about a visit is when the flag still
stands behind it.
-/

import Lookout.Proofs.StackMap.Format
import Lookout.StackMap.Shift

namespace Lookout

theorem raisedOffset?_eq_some_iff {offset distance raised : UInt16} :
    raisedOffset? offset distance = some raised ↔
      offset.toNat + distance.toNat < 65536 ∧ raised = offset + distance := by
  unfold raisedOffset?
  by_cases room : offset.toNat + distance.toNat < 65536
  · simp [room, eq_comm]
  · simp [room]

/-! ### Visits under a flag -/

section Visits

variable {α β γ : Type}

/-- The flag stands behind the visit exactly if it stood before and the value has
room, and then the visit yields the moved value. -/
def Visits (visit : StateM Bool β) (room : Prop) (moved : β) : Prop :=
  ∀ flag result, visit flag = (result, true) ↔ flag = true ∧ room ∧ result = moved

theorem visits_pure (value : β) : Visits (pure value) True value := by
  intro flag result
  show (value, flag) = (result, true) ↔ _
  simp only [Prod.mk.injEq, true_and]
  exact ⟨fun ⟨same, stands⟩ => ⟨stands, same.symm⟩, fun ⟨stands, same⟩ => ⟨same.symm, stands⟩⟩

theorem Visits.bind {first : StateM Bool β} {second : β → StateM Bool γ} {room : Prop}
    {roomLater : β → Prop} {moved : β} {movedLater : β → γ} (visits : Visits first room moved)
    (visitsLater : ∀ value, Visits (second value) (roomLater value) (movedLater value)) :
    Visits (first >>= second) (room ∧ roomLater moved) (movedLater moved) := by
  intro flag result
  show second (first flag).1 (first flag).2 = (result, true) ↔ _
  rw [visitsLater]
  constructor
  · rintro ⟨stands, hasRoom, rfl⟩
    obtain ⟨stood, hadRoom, same⟩ := (visits flag (first flag).1).mp (Prod.ext rfl stands)
    rw [same] at hasRoom ⊢
    exact ⟨stood, ⟨hadRoom, hasRoom⟩, rfl⟩
  · rintro ⟨stood, ⟨hadRoom, hasRoom⟩, rfl⟩
    rw [(visits flag moved).mpr ⟨stood, hadRoom, rfl⟩]
    exact ⟨rfl, hasRoom, rfl⟩

theorem Visits.congr {visit : StateM Bool β} {room room' : Prop} {moved : β}
    (visits : Visits visit room moved) (same : room ↔ room') : Visits visit room' moved := by
  intro flag result
  rw [visits flag result, same]

/-- A list is visited member by member, and all of them need room. -/
theorem visits_mapM {visit : α → StateM Bool β} {room : α → Prop} {move : α → β}
    (visits : ∀ value, Visits (visit value) (room value) (move value)) (values : List α) :
    Visits (values.mapM visit) (∀ value ∈ values, room value) (values.map move) := by
  induction values with
  | nil =>
      rw [List.mapM_nil]
      exact (visits_pure _).congr (by simp)
  | cons value values ih =>
      rw [List.mapM_cons]
      apply ((visits value).bind fun first =>
        ih.bind fun later => visits_pure (first :: later)).congr
      simp

end Visits

namespace VerificationType

/-- The type after `distance` bytes were inserted in front of the code. -/
def raised (distance : UInt16) : VerificationType → VerificationType
  | .uninitialized offset => .uninitialized (offset + distance)
  | type => type

/-- Whether the offset in the type, if there is one, can be raised by the distance. -/
def HasRoom (distance : UInt16) : VerificationType → Prop
  | .uninitialized offset => offset.toNat + distance.toNat < 65536
  | _ => True

theorem visits_shiftWhileFitting (distance : UInt16) (type : VerificationType) :
    Visits (shiftWhileFitting distance type) (type.HasRoom distance) (type.raised distance) := by
  intro flag result
  cases flag with
  | false =>
      show (type, false) = (result, true) ↔ _
      simp
  | true =>
      cases type with
      | uninitialized offset =>
          dsimp only [shiftWhileFitting]
          by_cases room : offset.toNat + distance.toNat < 65536
          · rw [raisedOffset?_eq_some_iff.mpr ⟨room, rfl⟩]
            show (uninitialized (offset + distance), true) = (result, true) ↔ _
            simp [HasRoom, raised, room, eq_comm]
          · have none : raisedOffset? offset distance = none := if_neg room
            rw [none]
            show (uninitialized offset, false) = (result, true) ↔ _
            simp [HasRoom, room]
      | _ =>
          show (_, true) = (result, true) ↔ _
          simp [HasRoom, raised, eq_comm]

@[simp]
theorem length_bytes_raised (distance : UInt16) (type : VerificationType) :
    (type.raised distance).bytes.length = type.bytes.length := by
  cases type <;> rfl

end VerificationType

namespace StackMapFrame

/-- The frame with all its types raised. -/
def raisedTypes (distance : UInt16) : StackMapFrame → StackMapFrame
  | .same delta => .same delta
  | .sameLocalsOneStackItem delta stack => .sameLocalsOneStackItem delta (stack.raised distance)
  | .chop delta count => .chop delta count
  | .append delta locals => .append delta (locals.map (VerificationType.raised distance))
  | .full delta locals stack =>
    .full delta (locals.map (VerificationType.raised distance))
      (stack.map (VerificationType.raised distance))

theorem visits_mapTypesM (distance : UInt16) (frame : StackMapFrame) :
    Visits (frame.mapTypesM (VerificationType.shiftWhileFitting distance))
      (∀ type ∈ frame.types, type.HasRoom distance) (frame.raisedTypes distance) := by
  have one := VerificationType.visits_shiftWhileFitting distance
  have several := visits_mapM one
  cases frame with
  | same delta => exact (visits_pure _).congr (by simp [types])
  | sameLocalsOneStackItem delta stack =>
      have visits := (one stack).bind fun moved =>
        visits_pure (StackMapFrame.sameLocalsOneStackItem delta moved)
      exact visits.congr (by simp [types])
  | chop delta count => exact (visits_pure _).congr (by simp [types])
  | append delta locals =>
      have visits := (several locals).bind fun moved =>
        visits_pure (StackMapFrame.append delta moved)
      exact visits.congr (by simp [types])
  | full delta locals stack =>
      have visits := (several locals).bind fun movedLocals => (several stack).bind fun movedStack =>
        visits_pure (StackMapFrame.full delta movedLocals movedStack)
      exact visits.congr (by simp only [types, List.mem_append, or_imp, forall_and, and_true])

theorem length_bytes_raisedTypes (distance : UInt16) (frame : StackMapFrame) :
    (frame.raisedTypes distance).bytes.length = frame.bytes.length := by
  have several (types : List VerificationType) :
      ((types.map (VerificationType.raised distance)).flatMap VerificationType.bytes).length =
        (types.flatMap VerificationType.bytes).length := by
    simp [List.length_flatMap, Function.comp_def]
  cases frame with
  | same _ => rfl
  | sameLocalsOneStackItem delta stack =>
      simp only [raisedTypes, bytes]
      split <;> simp
  | chop _ _ => rfl
  | append delta locals =>
      simp only [raisedTypes, bytes, List.length_cons, List.length_append, several]
  | full delta locals stack =>
      simp only [raisedTypes, bytes, List.length_cons, List.length_append, several,
        Word.length_count16]

@[simp]
theorem types_withDelta (delta : UInt16) (frame : StackMapFrame) :
    (frame.withDelta delta).types = frame.types := by
  cases frame <;> rfl

@[simp]
theorem delta_withDelta (delta : UInt16) (frame : StackMapFrame) :
    (frame.withDelta delta).delta = delta := by
  cases frame <;> rfl

@[simp]
theorem delta_raisedTypes (distance : UInt16) (frame : StackMapFrame) :
    (frame.raisedTypes distance).delta = frame.delta := by
  cases frame <;> rfl

/-- A larger delta may need the extended form, which takes two bytes more. -/
theorem length_bytes_withDelta_le (delta : UInt16) (frame : StackMapFrame) :
    (frame.withDelta delta).bytes.length ≤ frame.bytes.length + 2 := by
  cases frame with
  | same old =>
      simp only [withDelta, bytes]
      split <;> split <;> simp
  | sameLocalsOneStackItem old stack =>
      simp only [withDelta, bytes]
      split <;> split <;> simp <;> omega
  | _ => simp [withDelta, bytes]

end StackMapFrame

namespace StackMapTable

/-- The frames with the first delta raised. -/
def raisedFirst (distance : UInt16) : List StackMapFrame → List StackMapFrame
  | [] => []
  | first :: later => first.withDelta (first.delta + distance) :: later

theorem raiseFirst?_eq_some_iff {distance : UInt16} {frames raised : List StackMapFrame} :
    raiseFirst? distance frames = some raised ↔
      (∀ first ∈ frames.head?, first.delta.toNat + distance.toNat < 65536) ∧
        raised = raisedFirst distance frames := by
  cases frames with
  | nil => simp [raiseFirst?, raisedFirst, eq_comm]
  | cons first later =>
      simp only [raiseFirst?, raisedFirst, Option.map_eq_some_iff, raisedOffset?_eq_some_iff,
        List.head?_cons, Option.mem_some_iff, forall_eq']
      constructor
      · rintro ⟨delta, ⟨room, rfl⟩, rfl⟩
        exact ⟨room, rfl⟩
      · rintro ⟨room, rfl⟩
        exact ⟨_, ⟨room, rfl⟩, rfl⟩

/-- The table after `distance` bytes were inserted in front of the code. -/
def raised (distance : UInt16) (table : StackMapTable) : StackMapTable :=
  ⟨(raisedFirst distance table.frames).map (StackMapFrame.raisedTypes distance)⟩

/-- Whether the delta of the first frame and all offsets in types can be raised. -/
structure HasRoom (distance : UInt16) (table : StackMapTable) : Prop where
  first : ∀ first ∈ table.frames.head?, first.delta.toNat + distance.toNat < 65536
  types : ∀ frame ∈ table.frames, ∀ type ∈ frame.types, type.HasRoom distance

private theorem types_haveRoom_raisedFirst {distance : UInt16} {frames : List StackMapFrame} :
    (∀ frame ∈ raisedFirst distance frames, ∀ type ∈ frame.types, type.HasRoom distance) ↔
      ∀ frame ∈ frames, ∀ type ∈ frame.types, type.HasRoom distance := by
  cases frames with
  | nil => rfl
  | cons first later => simp [raisedFirst]

/-- A move succeeds exactly if all offsets have room, and then raises just them. -/
theorem shift_eq_ok_iff {table moved : StackMapTable} {distance : UInt16} :
    table.shift distance = (.ok (), moved) ↔
      table.HasRoom distance ∧ moved = table.raised distance := by
  have visits := visits_mapM (StackMapFrame.visits_mapTypesM distance)
    (raisedFirst distance table.frames)
  unfold shift
  cases raisedFrames : raiseFirst? distance table.frames with
  | none =>
      constructor
      · intro impossible
        cases impossible
      · rintro ⟨room, -⟩
        rw [raiseFirst?_eq_some_iff.mpr ⟨room.first, rfl⟩] at raisedFrames
        cases raisedFrames
  | some frames =>
      obtain ⟨firstRoom, rfl⟩ := raiseFirst?_eq_some_iff.mp raisedFrames
      rw [types_haveRoom_raisedFirst] at visits
      dsimp only
      cases visited : (((raisedFirst distance table.frames).mapM
          (StackMapFrame.mapTypesM (VerificationType.shiftWhileFitting distance))).run true) with
      | mk frames flag =>
          cases flag with
          | true =>
              obtain ⟨-, typesRoom, rfl⟩ := (visits true frames).mp visited
              constructor
              · intro success
                cases success
                exact ⟨⟨firstRoom, typesRoom⟩, rfl⟩
              · rintro ⟨-, rfl⟩
                rfl
          | false =>
              constructor
              · intro impossible
                cases impossible
              · rintro ⟨room, -⟩
                have stands := (visits true _).mpr ⟨rfl, room.types, rfl⟩
                cases visited.symm.trans stands

/-- Frames that keep their deltas stand as far behind the frame before them as they did. -/
private theorem laterOffsetsOnto_raised (distance : Nat) {change : StackMapFrame → StackMapFrame}
    (sameDelta : ∀ frame, (change frame).delta = frame.delta) (done : List Nat) (previous : Nat)
    (frames : List StackMapFrame) :
    laterOffsetsOnto (done.map (· + distance)) (previous + distance) (frames.map change) =
      (laterOffsetsOnto done previous frames).map (· + distance) := by
  induction frames generalizing done previous with
  | nil => rw [List.map_nil, laterOffsetsOnto, laterOffsetsOnto, List.map_reverse]
  | cons frame later ih =>
      have moved : previous + distance + frame.delta.toNat + 1 =
          previous + frame.delta.toNat + 1 + distance := by
        omega
      rw [List.map_cons, laterOffsetsOnto, laterOffsetsOnto, sameDelta, moved, ← ih, List.map_cons]

/-- The frames of a table that was moved stand where they stood, moved on. -/
theorem offsets_raised {table : StackMapTable} {distance : UInt16}
    (room : table.HasRoom distance) :
    (table.raised distance).offsets = table.offsets.map (· + distance.toNat) := by
  obtain ⟨frames⟩ := table
  cases frames with
  | nil => rfl
  | cons first later =>
      have firstRoom : first.delta.toNat + distance.toNat < 65536 := room.first first rfl
      have moved : (first.delta + distance).toNat = first.delta.toNat + distance.toNat := by
        rw [UInt16.toNat_add, Nat.mod_eq_of_lt firstRoom]
      simp only [offsets, raised, raisedFirst, List.map_cons, StackMapFrame.delta_raisedTypes,
        StackMapFrame.delta_withDelta, moved]
      exact laterOffsetsOnto_raised distance.toNat (StackMapFrame.delta_raisedTypes distance)
        [first.delta.toNat] first.delta.toNat later

private theorem mem_laterOffsetsOnto {offset : Nat} {done : List Nat} (member : offset ∈ done)
    (previous : Nat) (frames : List StackMapFrame) :
    offset ∈ laterOffsetsOnto done previous frames := by
  induction frames generalizing done previous with
  | nil => exact List.mem_reverse.mpr member
  | cons frame later ih => exact ih (List.mem_cons_of_mem _ member) _

/-- The first frame stands where its delta says. -/
theorem delta_mem_offsets {table : StackMapTable} {first : StackMapFrame}
    (isFirst : first ∈ table.frames.head?) : first.delta.toNat ∈ table.offsets := by
  obtain ⟨frames⟩ := table
  cases frames with
  | nil => cases isFirst
  | cons other later =>
      cases isFirst
      exact mem_laterOffsetsOnto (List.mem_singleton_self _) _ later

theorem length_bytes_raised_le (distance : UInt16) (table : StackMapTable) :
    (table.raised distance).bytes.length ≤ table.bytes.length + 2 := by
  have same (frames : List StackMapFrame) :
      ((frames.map (StackMapFrame.raisedTypes distance)).flatMap StackMapFrame.bytes).length =
        (frames.flatMap StackMapFrame.bytes).length := by
    simp [List.length_flatMap, Function.comp_def, StackMapFrame.length_bytes_raisedTypes]
  obtain ⟨frames⟩ := table
  cases frames with
  | nil => exact Nat.le_add_right _ 2
  | cons first later =>
      have raisedFirst := first.length_bytes_withDelta_le (first.delta + distance)
      simp only [bytes, raised, StackMapTable.raisedFirst, same, List.flatMap_cons,
        List.length_append, Word.length_count16]
      omega

end StackMapTable

end Lookout
