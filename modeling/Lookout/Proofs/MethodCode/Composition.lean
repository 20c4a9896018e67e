/-
# Two insertions in a row

After an insertion a method is written anew, with its tables in the form that is written
for them, and a second insertion starts from that. It comes out as if both fragments had
been inserted at once, the later one in front. Everything that records an offset is
followed from the entry up: moving it by one distance and then by another is moving it by
their sum, and the sum has room exactly if both steps have.
-/

import Lookout.Proofs.MethodCode.Acceptance
import Lookout.Proofs.StackMap.Moved
import Lookout.Proofs.StackMap.RoundTrip

namespace Lookout

/-! ### Moves that add up -/

/-- Moving by one distance and then by another comes to moving by both of them, as long
as their sum is a distance. -/
structure AddsUp {α : Type} (moves : UInt16 → α → α → Prop) : Prop where
  add_iff {first second : UInt16} (short : first.toNat + second.toNat < 65536) {before after : α} :
    moves (first + second) before after ↔
      ∃ between, moves first before between ∧ moves second between after

theorem forall₂_exists_iff {α β γ : Type} {first : α → β → Prop} {second : β → γ → Prop}
    {values : List α} {results : List γ} :
    List.Forall₂ (fun value result => ∃ middle, first value middle ∧ second middle result)
        values results ↔
      ∃ middles, List.Forall₂ first values middles ∧ List.Forall₂ second middles results := by
  constructor
  · intro pairs
    induction pairs with
    | nil => exact ⟨[], .nil, .nil⟩
    | cons pair _ ih =>
        obtain ⟨middle, front, back⟩ := pair
        obtain ⟨middles, fronts, backs⟩ := ih
        exact ⟨middle :: middles, .cons front fronts, .cons back backs⟩
  · rintro ⟨middles, fronts, backs⟩
    induction fronts generalizing results with
    | nil =>
        cases backs
        exact .nil
    | cons front _ ih =>
        cases backs with
        | cons back later => exact .cons ⟨_, front, back⟩ (ih later)

theorem exists_forall₂_cons_iff {α β : Type} {related : α → β → Prop} {value : α}
    {values : List α} {property : List β → Prop} :
    (∃ results, List.Forall₂ related (value :: values) results ∧ property results) ↔
      ∃ result, related value result ∧
        ∃ results, List.Forall₂ related values results ∧ property (result :: results) := by
  simp only [List.forall₂_cons_left_iff]
  constructor
  · rintro ⟨_, ⟨result, results, pair, pairs, rfl⟩, holds⟩
    exact ⟨result, pair, results, pairs, holds⟩
  · rintro ⟨result, pair, results, pairs, holds⟩
    exact ⟨_, ⟨result, results, pair, pairs, rfl⟩, holds⟩

/-- What adds up for each member adds up for a list. -/
theorem AddsUp.forall₂ {α : Type} {moves : UInt16 → α → α → Prop} (addsUp : AddsUp moves) :
    AddsUp fun distance => List.Forall₂ (moves distance) := by
  refine ⟨fun {first second} short before after => ?_⟩
  have atOnce : moves (first + second) = fun value result =>
      ∃ middle, moves first value middle ∧ moves second middle result :=
    funext₂ fun _ _ => propext (addsUp.add_iff short)
  show List.Forall₂ (moves (first + second)) before after ↔ _
  rw [atOnce]
  exact forall₂_exists_iff

/-- Once the first move is known, the move by both distances is the second one. -/
theorem AddsUp.after {ε α : Type} {move : UInt16 → α → Except ε α}
    (addsUp : AddsUp fun distance before after => move distance before = .ok after)
    {first second : UInt16} (short : first.toNat + second.toNat < 65536) {before between after : α}
    (moved : move first before = .ok between) :
    move (first + second) before = .ok after ↔ move second between = .ok after := by
  refine (addsUp.add_iff short).trans ⟨?_, ?_⟩
  · rintro ⟨_, same, later⟩
    cases moved.symm.trans same
    exact later
  · exact fun later => ⟨between, moved, later⟩

theorem raisedOffset_add_eq_ok_iff {name : String} {offset first second raised : UInt16}
    (short : first.toNat + second.toNat < 65536) :
    raisedOffset name offset (first + second) = .ok raised ↔
      ∃ between, raisedOffset name offset first = .ok between ∧
        raisedOffset name between second = .ok raised := by
  simp only [raisedOffset_eq_ok_iff, fits_add_iff short, ← UInt16.add_assoc]
  constructor
  · rintro ⟨⟨room, further⟩, rfl⟩
    exact ⟨_, ⟨room, rfl⟩, further, rfl⟩
  · rintro ⟨_, ⟨room, rfl⟩, further, rfl⟩
    exact ⟨⟨room, further⟩, rfl⟩

/-! ### Entries of tables -/

theorem ExceptionEntry.addsUp_shifted :
    AddsUp fun distance entry moved => ExceptionEntry.shifted distance entry = .ok moved := by
  refine ⟨fun {first second} short entry moved => ?_⟩
  simp only [shifted_eq_ok_iff, raisedOffset_add_eq_ok_iff short]
  constructor
  · rintro ⟨⟨start, startOnce, startTwice⟩, ⟨stop, stopOnce, stopTwice⟩,
      ⟨handler, handlerOnce, handlerTwice⟩, sameType⟩
    exact ⟨⟨start, stop, handler, entry.catchType⟩, ⟨startOnce, stopOnce, handlerOnce, rfl⟩,
      startTwice, stopTwice, handlerTwice, sameType⟩
  · rintro ⟨between, ⟨startOnce, stopOnce, handlerOnce, sameOnce⟩,
      startTwice, stopTwice, handlerTwice, sameTwice⟩
    exact ⟨⟨_, startOnce, startTwice⟩, ⟨_, stopOnce, stopTwice⟩, ⟨_, handlerOnce, handlerTwice⟩,
      sameTwice.trans sameOnce⟩

theorem ExceptionEntry.addsUp_mapM_shifted :
    AddsUp fun distance (before : List ExceptionEntry) after =>
      before.mapM (shifted distance) = .ok after := by
  simp only [mapExcept_eq_ok_iff]
  exact addsUp_shifted.forall₂

theorem LineEntry.addsUp_moves : AddsUp LineEntry.Moves := by
  refine ⟨fun {first second} short entry moved => ?_⟩
  simp only [Moves, raisedOffset_add_eq_ok_iff short]
  constructor
  · rintro ⟨⟨start, raised, raised'⟩, sameLine⟩
    exact ⟨⟨start, entry.line⟩, ⟨raised, rfl⟩, raised', sameLine⟩
  · rintro ⟨between, ⟨raised, sameLine⟩, raised', sameLine'⟩
    exact ⟨⟨_, raised, raised'⟩, sameLine'.trans sameLine⟩

namespace VariableRange

variable {name : String} {distance : UInt16} {range moved : VariableRange}

theorem moves_iff_of_eq_zero (fromStart : range.start = 0) :
    range.Moves name distance moved ↔ moved.start = 0 ∧
      raisedOffset name range.length distance = .ok moved.length ∧
        moved.details = range.details := by
  rw [Moves, shiftedBounds, if_pos fromStart, bindExcept_eq_ok_iff, ← and_assoc]
  simp [pure, Except.pure, eq_comm, and_comm]

theorem moves_iff_of_ne_zero (later : range.start ≠ 0) :
    range.Moves name distance moved ↔
      raisedOffset name range.start distance = .ok moved.start ∧
        moved.length = range.length ∧ moved.details = range.details := by
  rw [Moves, shiftedBounds, if_neg later, bindExcept_eq_ok_iff, ← and_assoc]
  simp [pure, Except.pure, eq_comm]

/-- A range starts at 0 after a move only if it did before. -/
theorem Moves.start_eq_zero_iff (moves : range.Moves name distance moved) :
    moved.start = 0 ↔ range.start = 0 := by
  have start := (stretched_of_moves moves).start
  rw [← UInt16.toNat_inj, ← UInt16.toNat_inj, UInt16.toNat_zero, start]
  split <;> omega

/-- Both moves widen the range or both of them raise its start, and so does the one move. -/
theorem addsUp_moves (name : String) : AddsUp (Moves name) := by
  refine ⟨fun {first second} short range moved => ?_⟩
  by_cases fromStart : range.start = 0
  · rw [moves_iff_of_eq_zero fromStart, raisedOffset_add_eq_ok_iff short]
    constructor
    · rintro ⟨unmoved, ⟨length, widened, widened'⟩, sameDetails⟩
      exact ⟨⟨0, length, range.details⟩,
        (moves_iff_of_eq_zero fromStart).mpr ⟨rfl, widened, rfl⟩,
        (moves_iff_of_eq_zero rfl).mpr ⟨unmoved, widened', sameDetails⟩⟩
    · rintro ⟨between, moves, moves'⟩
      obtain ⟨unmoved, widened, sameDetails⟩ := (moves_iff_of_eq_zero fromStart).mp moves
      obtain ⟨unmoved', widened', sameDetails'⟩ := (moves_iff_of_eq_zero unmoved).mp moves'
      exact ⟨unmoved', ⟨_, widened, widened'⟩, sameDetails'.trans sameDetails⟩
  · rw [moves_iff_of_ne_zero fromStart, raisedOffset_add_eq_ok_iff short]
    constructor
    · rintro ⟨⟨start, raised, raised'⟩, sameLength, sameDetails⟩
      have moves : range.Moves name first ⟨start, range.length, range.details⟩ :=
        (moves_iff_of_ne_zero fromStart).mpr ⟨raised, rfl, rfl⟩
      have stillLater : start ≠ 0 := moves.start_eq_zero_iff.not.mpr fromStart
      exact ⟨_, moves, (moves_iff_of_ne_zero stillLater).mpr ⟨raised', sameLength, sameDetails⟩⟩
    · rintro ⟨between, moves, moves'⟩
      have stillLater : between.start ≠ 0 := moves.start_eq_zero_iff.not.mpr fromStart
      obtain ⟨raised, sameLength, sameDetails⟩ := (moves_iff_of_ne_zero fromStart).mp moves
      obtain ⟨raised', sameLength', sameDetails'⟩ := (moves_iff_of_ne_zero stillLater).mp moves'
      exact ⟨⟨_, raised, raised'⟩, sameLength'.trans sameLength, sameDetails'.trans sameDetails⟩

end VariableRange

/-! ### Tables -/

/-- What adds up for lists of entries adds up for the bytes that they are read from, as long
as what they become can be written. -/
theorem AddsUp.read {ε α : Type} {moves : UInt16 → α → α → Prop} (addsUp : AddsUp moves)
    {read : Bytes → Except ε (List α)}
    (written : ∀ {distance info before after}, read info = .ok before →
      List.Forall₂ (moves distance) before after → ∃ moved, read moved = .ok after) :
    AddsUp fun distance info moved => ∃ before after, read info = .ok before ∧
      read moved = .ok after ∧ List.Forall₂ (moves distance) before after := by
  refine ⟨fun {first second} short info moved => ?_⟩
  constructor
  · rintro ⟨before, after, readBefore, readAfter, moves⟩
    obtain ⟨between, front, back⟩ := (addsUp.forall₂.add_iff short).mp moves
    obtain ⟨middle, readBetween⟩ := written readBefore front
    exact ⟨middle, ⟨before, between, readBefore, readBetween, front⟩,
      between, after, readBetween, readAfter, back⟩
  · rintro ⟨middle, ⟨before, between, readBefore, readBetween, front⟩,
      other, after, readOther, readAfter, back⟩
    cases readBetween.symm.trans readOther
    have moves := (addsUp.forall₂.add_iff short).mpr ⟨between, front, back⟩
    exact ⟨before, after, readBefore, readAfter, moves⟩

namespace DebugTable

theorem addsUp_shiftLines :
    AddsUp fun distance info moved => shiftLines distance info = .ok moved := by
  simp only [shiftLines_eq_ok_iff]
  exact LineEntry.addsUp_moves.read fun readBefore moves =>
    ⟨_, lines_bytes_of_moves readBefore moves⟩

theorem addsUp_shiftVariables (name : String) :
    AddsUp fun distance info moved => shiftVariables name distance info = .ok moved := by
  simp only [shiftVariables_eq_ok_iff]
  exact (VariableRange.addsUp_moves name).read fun readBefore moves =>
    ⟨_, ranges_bytes_of_moves readBefore moves⟩

end DebugTable

namespace StackMapFrame

theorem fits_raisedTypes_iff {distance : UInt16} {frame : StackMapFrame} :
    (frame.raisedTypes distance).Fits ↔ frame.Fits := by
  cases frame <;> simp [raisedTypes, Fits]

theorem fits_withDelta_iff {delta : UInt16} {frame : StackMapFrame} :
    (frame.withDelta delta).Fits ↔ frame.Fits := by
  cases frame <;> rfl

end StackMapFrame

/-- What fits still does after a move, which changes no count. -/
theorem StackMapTable.Fits.raised {table : StackMapTable} (fits : table.Fits) (distance : UInt16) :
    (table.raised distance).Fits := by
  obtain ⟨few, each⟩ := fits
  obtain ⟨frames⟩ := table
  cases frames with
  | nil => exact ⟨few, each⟩
  | cons first later =>
      simp only [List.forall_mem_cons] at each
      refine ⟨by simpa [StackMapTable.raised, raisedFirst] using few, ?_⟩
      simpa [StackMapTable.raised, raisedFirst, StackMapFrame.fits_raisedTypes_iff,
        StackMapFrame.fits_withDelta_iff] using each

namespace MethodCode

variable {pool : ConstantPool} {first second : UInt16}
  (short : first.toNat + second.toNat < 65536)

include short

/-- The table that a move leaves is written and read again before the next move. -/
theorem shiftFrames_add_eq_ok_iff {info : Bytes} {between moved : StackMapTable}
    (success : shiftFrames first info = .ok between) :
    shiftFrames (first + second) info = .ok moved ↔
      shiftFrames second between.bytes = .ok moved := by
  obtain ⟨table, read, room, rfl⟩ := shiftFrames_eq_ok_iff.mp success
  have fits := (StackMapTable.fits_of_ofBytes read).raised first
  simp only [shiftFrames_eq_ok_iff, read, fits.ofBytes_bytes, Except.ok.injEq, exists_eq_left',
    StackMapTable.hasRoom_add_iff short, StackMapTable.raised_raised, room, true_and]

/-- Once an attribute was moved and kept, the next move is the move by both distances. -/
theorem moveAttribute_add_eq_ok_iff {item left : Attribute} {offsets : List Nat}
    {moved : MovedAttribute} (success : moveAttribute pool first item = .ok ⟨some left, offsets⟩) :
    moveAttribute pool (first + second) item = .ok moved ↔
      moveAttribute pool second left = .ok moved := by
  obtain ⟨name, resolved, moves⟩ := moves_of_moveAttribute success
  simp only [moveAttribute, bindExcept_eq_ok_iff]
  -- What is left has the name of what was moved, so it takes the same branch again.
  cases moves with
  | lines shifted =>
      simp only [resolved, Except.ok.injEq, exists_eq_left', if_true, bindExcept_eq_ok_iff]
      simp only [DebugTable.addsUp_shiftLines.after short shifted]
  | ranges named shifted =>
      have notLines : name ≠ LineEntry.attributeName := by rcases named with rfl | rfl <;> decide
      simp only [resolved, Except.ok.injEq, exists_eq_left', notLines, named, if_true, if_false,
        bindExcept_eq_ok_iff]
      simp only [(DebugTable.addsUp_shiftVariables name).after short shifted]
  | frames shifted =>
      have notLines : StackMapTable.attributeName ≠ LineEntry.attributeName := by decide
      have notRanges : ¬(StackMapTable.attributeName = VariableRange.attributeName ∨
          StackMapTable.attributeName = VariableRange.typeAttributeName) := by decide
      simp only [resolved, Except.ok.injEq, exists_eq_left', notLines, notRanges, if_true, if_false,
        bindExcept_eq_ok_iff]
      simp only [shiftFrames_add_eq_ok_iff short shifted]
  | untouched notLines notByDescriptor notBySignature notFrames notAnnotations =>
      simp only [resolved, Except.ok.injEq, exists_eq_left', notLines, notByDescriptor,
        notBySignature, notFrames, notAnnotations, or_self, if_false]

omit short in
/-- An attribute that one move drops is dropped by every other. -/
theorem moveAttribute_eq_ok_iff_of_dropped {item : Attribute} {offsets : List Nat}
    {moved : MovedAttribute} (success : moveAttribute pool first item = .ok ⟨none, offsets⟩) :
    moveAttribute pool second item = .ok moved ↔ moved = ⟨none, []⟩ := by
  obtain ⟨name, resolved, moves⟩ := moves_of_moveAttribute success
  have dropped : moveAttribute pool second item = .ok ⟨none, []⟩ :=
    moveAttribute_of_moves resolved (.dropped (moves.kept_eq_none_iff.mp rfl))
  rw [dropped, Except.ok.injEq, eq_comm]

/-- A row of attributes that were moved and then, as far as they were kept, moved again is
the row moved once: what is kept and where frames stand come out the same. -/
theorem moveAttributes_add_iff {items : List Attribute} {once : List MovedAttribute}
    (success : items.mapM (moveAttribute pool first) = .ok once)
    (outcome : List Attribute → List Nat → Prop) :
    (∃ moved, items.mapM (moveAttribute pool (first + second)) = .ok moved ∧
        outcome (moved.filterMap MovedAttribute.kept)
          (moved.flatMap MovedAttribute.frameOffsets)) ↔
      ∃ moved, (once.filterMap MovedAttribute.kept).mapM (moveAttribute pool second) = .ok moved ∧
        outcome (moved.filterMap MovedAttribute.kept)
          (moved.flatMap MovedAttribute.frameOffsets) := by
  simp only [mapExcept_eq_ok_iff] at success ⊢
  induction success generalizing outcome with
  | nil => simp
  | @cons item result items results moves _ ih =>
      obtain ⟨kept, offsets⟩ := result
      cases kept with
      | none =>
          simp only [List.filterMap_cons_none, ← ih, exists_forall₂_cons_iff,
            moveAttribute_eq_ok_iff_of_dropped moves]
          simp
      | some left =>
          rw [List.filterMap_cons]
          rw [exists_forall₂_cons_iff, exists_forall₂_cons_iff]
          refine exists_congr fun moved => and_congr (moveAttribute_add_eq_ok_iff short moves) ?_
          simp only [List.filterMap_eq_flatMap_toList, List.flatMap_cons] at ih ⊢
          exact ih fun kept offsets =>
            outcome (moved.kept.toList ++ kept) (moved.frameOffsets ++ offsets)

end MethodCode

/-! ### Insertions -/

/-- Both fragments in one, the second behind the first. -/
def Fragment.append (front back : Fragment) : Fragment where
  code := front.code ++ back.code
  maxStack := max front.maxStack back.maxStack
  maxLocals := max front.maxLocals back.maxLocals

theorem Fragment.length_append (front back : Fragment) :
    (front.append back).length = front.length + back.length :=
  List.length_append

theorem Fragment.distance_append (front back : Fragment) :
    UInt16.ofNat (front.append back).length =
      UInt16.ofNat back.length + UInt16.ofNat front.length := by
  rw [length_append, Nat.add_comm, UInt16.ofNat_add]

theorem Word.max16_comm_assoc (first second third : UInt16) :
    max first (max third second) = max (max first second) third := by
  have larger (word other : UInt16) : max word other = if word ≤ other then other else word := rfl
  simp only [larger]
  grind

namespace MethodCode

theorem movedReferences_eq (exceptions : List ExceptionEntry) (moved : List MovedAttribute) :
    movedReferences exceptions moved = exceptions.flatMap ExceptionEntry.references ++
      (moved.flatMap MovedAttribute.frameOffsets).map fun offset => ⟨offset, offset⟩ := by
  rw [movedReferences, List.map_flatMap]

/-- Inserting a second fragment is inserting both of them at once, the second one in front:
the one is accepted exactly if the other is, and the methods are the same to the byte. -/
theorem insertPrologue_append {body between extended : MethodCode} {pool : ConstantPool}
    {front back : Fragment} (inserted : body.insertPrologue pool back = .ok between) :
    body.insertPrologue pool (front.append back) = .ok extended ↔
      between.insertPrologue pool front = .ok extended := by
  obtain ⟨aligned, -, exceptions, moved, exceptionsMoved, attributesMoved, -, rfl⟩ :=
    insertPrologue_eq_ok_iff.mp inserted
  rw [insertPrologue_eq_ok_iff, insertPrologue_eq_ok_iff]
  refine and_congr ?_ ?_
  · rw [Fragment.length_append]
    omega
  have sameLength : (front.append back).length + body.code.length =
      front.length + (back.code ++ body.code).length := by
    rw [Fragment.length_append, List.length_append, Nat.add_assoc]
    rfl
  rw [sameLength]
  refine and_congr_right fun room => ?_
  rw [← sameLength, Fragment.length_append, maxCodeLength] at room
  have short : (UInt16.ofNat back.length).toNat + (UInt16.ofNat front.length).toNat < 65536 := by
    rw [Word.toNat_ofNat16 (by omega), Word.toNat_ofNat16 (by omega)]
    omega
  simp only [Fragment.distance_append, exists_and_left]
  refine exists_congr fun exceptionsAfter => and_congr ?_ ?_
  · exact ExceptionEntry.addsUp_mapM_shifted.after short exceptionsMoved
  · -- The check and the result depend on what is kept of the attributes and on where frames
    -- stand, and on nothing else of their move.
    simp only [movedReferences_eq, Fragment.append, List.append_assoc, Word.max16_comm_assoc]
    exact moveAttributes_add_iff short attributesMoved fun attributes offsets =>
      checkLayout _ (_ ++ offsets.map _) = _ ∧ extended = { attributes, .. }

/-- Sixty-four bytes that do nothing and ask for more room than the sample has. -/
def roomyNops : Fragment := ⟨List.replicate 64 Opcode.nop, 2, 3⟩

/-- The method with a frame behind four bytes. Its frame has the compact form, for a delta
of 6. -/
def onceMovedSample : MethodCode :=
  { movedTableSample with
    attributes := movedTableSample.attributes ++ [⟨4, [0, 1, 70, 8, 0, 5]⟩] }

/-- That method behind sixty-four bytes more. Now the delta needs the extended form. -/
def twiceMovedSample : MethodCode where
  maxStack := 2
  maxLocals := 3
  code := roomyNops.code ++ onceMovedSample.code
  exceptions := [⟨68, 70, 70, 0⟩]
  attributes := [⟨1, [0, 1, 0, 69, 0, 7]⟩,
    ⟨2, [0, 2, 0, 0, 0, 71, 0, 5, 0, 6, 0, 0, 0, 69, 0, 2, 0, 8, 0, 6, 0, 1]⟩,
    ⟨4, [0, 1, 247, 0, 70, 8, 0, 69]⟩]

/-- The method takes in both fragments one after the other, and so at once. -/
theorem insertPrologue_append_frameSample :
    frameSample.insertPrologue frameNames fourNops = .ok onceMovedSample ∧
      onceMovedSample.insertPrologue frameNames roomyNops = .ok twiceMovedSample ∧
      frameSample.insertPrologue frameNames (roomyNops.append fourNops) =
        .ok twiceMovedSample := by
  have first : frameSample.insertPrologue frameNames fourNops = .ok onceMovedSample :=
    eq_ok_of_toOption (by decide +kernel)
  have second : onceMovedSample.insertPrologue frameNames roomyNops = .ok twiceMovedSample :=
    eq_ok_of_toOption (by decide +kernel)
  exact ⟨first, second, (insertPrologue_append first).mpr second⟩

end MethodCode

end Lookout
