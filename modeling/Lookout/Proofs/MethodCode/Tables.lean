/-
# What the tables of a method say after an insertion

A method records which handlers protect an instruction, which source lines it
starts, and which variables are live at it. An insertion moves the instructions,
and these records with them: at an offset of the body, moved on, they say what they
said at the offset before. Inside the fragment nothing is caught and no line starts;
a variable is live there exactly if it was live from the first instruction on.
-/

import Lookout.Proofs.MethodCode.Growth

namespace Lookout

theorem raisedOffset_eq_ok_iff {name : String} {offset distance raised : UInt16} :
    raisedOffset name offset distance = .ok raised ↔
      offset.toNat + distance.toNat < 65536 ∧ raised = offset + distance := by
  rw [← raisedOffset?_eq_some_iff, raisedOffset]
  cases raisedOffset? offset distance <;> simp

theorem toNat_of_raisedOffset {name : String} {offset distance raised : UInt16}
    (success : raisedOffset name offset distance = .ok raised) :
    raised.toNat = offset.toNat + distance.toNat := by
  obtain ⟨room, rfl⟩ := raisedOffset_eq_ok_iff.mp success
  rw [UInt16.toNat_add, Nat.mod_eq_of_lt room]

theorem raisedOffset_eq_ok {offset distance : UInt16}
    (room : offset.toNat + distance.toNat < 65536) (name : String) :
    raisedOffset name offset distance = .ok (offset + distance) :=
  raisedOffset_eq_ok_iff.mpr ⟨room, rfl⟩

theorem raisedOffset_zero (name : String) (offset : UInt16) :
    raisedOffset name offset 0 = .ok offset := by
  have room : offset.toNat + (0 : UInt16).toNat < 65536 := offset.toNat_lt
  rw [raisedOffset_eq_ok room, UInt16.add_zero]

section Filter

variable {α β : Type} {related : α → β → Prop} {first : α → Prop} {second : β → Prop}
  [DecidablePred first] [DecidablePred second] {values : List α} {results : List β}

/-- Lists that are related member by member stay so when related members are left out
together. -/
theorem forall₂_filter (pairs : List.Forall₂ related values results)
    (alike : ∀ value result, related value result → (first value ↔ second result)) :
    List.Forall₂ related (values.filter (first ·)) (results.filter (second ·)) :=
  List.rel_filter (fun _ _ pair => by simpa using alike _ _ pair) pairs

theorem filter_eq_nil_of_forall₂ (pairs : List.Forall₂ related values results)
    (never : ∀ value result, related value result → ¬second result) :
    results.filter (second ·) = [] := by
  refine List.filter_eq_nil_iff.mpr ?_
  induction pairs with
  | nil => simp
  | cons pair _ ih => simpa [never _ _ pair] using ih

end Filter

/-! ### Handlers -/

namespace ExceptionEntry

/-- Whether the range of the entry contains this offset. -/
def Covers (entry : ExceptionEntry) (offset : Nat) : Prop :=
  entry.start.toNat ≤ offset ∧ offset < entry.stop.toNat

instance (entry : ExceptionEntry) (offset : Nat) : Decidable (entry.Covers offset) :=
  inferInstanceAs (Decidable (_ ∧ _))

/-- The second entry is the first one with its range and its handler moved on. -/
structure Raised (distance : Nat) (entry raised : ExceptionEntry) : Prop where
  start : raised.start.toNat = entry.start.toNat + distance
  stop : raised.stop.toNat = entry.stop.toNat + distance
  handler : raised.handler.toNat = entry.handler.toNat + distance
  catchType : raised.catchType = entry.catchType

theorem shifted_eq_ok_iff {distance : UInt16} {entry moved : ExceptionEntry} :
    entry.shifted distance = .ok moved ↔
      raisedOffset MethodCode.attributeName entry.start distance = .ok moved.start ∧
        raisedOffset MethodCode.attributeName entry.stop distance = .ok moved.stop ∧
        raisedOffset MethodCode.attributeName entry.handler distance = .ok moved.handler ∧
        moved.catchType = entry.catchType := by
  obtain ⟨start, stop, handler, catchType⟩ := moved
  simp only [shifted, bindExcept_eq_ok_iff]
  constructor
  · rintro ⟨start, startRaised, stop, stopRaised, handler, handlerRaised, same⟩
    cases same
    exact ⟨startRaised, stopRaised, handlerRaised, rfl⟩
  · rintro ⟨startRaised, stopRaised, handlerRaised, rfl⟩
    exact ⟨start, startRaised, stop, stopRaised, handler, handlerRaised, rfl⟩

theorem raised_of_shifted {distance : UInt16} {entry moved : ExceptionEntry}
    (success : entry.shifted distance = .ok moved) : Raised distance.toNat entry moved := by
  obtain ⟨start, stop, handler, sameType⟩ := shifted_eq_ok_iff.mp success
  exact ⟨toNat_of_raisedOffset start, toNat_of_raisedOffset stop, toNat_of_raisedOffset handler,
    sameType⟩

/-- The entries that cover an offset, in the order in which they are tried. -/
def coveringAt (entries : List ExceptionEntry) (offset : Nat) : List ExceptionEntry :=
  entries.filter (·.Covers offset)

/-- The handlers of a body still protect its instructions, `distance` bytes further on,
and nothing in front of them. -/
structure Follow (distance : Nat) (before after : List ExceptionEntry) : Prop where
  behind (offset : Nat) : List.Forall₂ (Raised distance) (coveringAt before offset)
    (coveringAt after (offset + distance))
  inFront : ∀ offset < distance, coveringAt after offset = []

theorem follow_of_raised {distance : Nat} {before after : List ExceptionEntry}
    (raised : List.Forall₂ (Raised distance) before after) : Follow distance before after where
  behind offset := by
    refine forall₂_filter raised fun entry moved pair => ?_
    have := pair.start
    have := pair.stop
    unfold Covers
    omega
  inFront offset inFront := by
    refine filter_eq_nil_of_forall₂ raised fun entry moved pair => ?_
    have := pair.start
    unfold Covers
    omega

end ExceptionEntry

/-! ### Lines -/

namespace LineEntry

/-- The lines whose code starts at an offset. -/
def linesAt (entries : List LineEntry) (offset : Nat) : List UInt16 :=
  (entries.filter (·.start.toNat = offset)).map LineEntry.line

/-- The lines of a body start at the same instructions, `distance` bytes further on, and
no line starts in front of them. -/
structure Follow (distance : Nat) (before after : List LineEntry) : Prop where
  behind (offset : Nat) : linesAt after (offset + distance) = linesAt before offset
  inFront : ∀ offset < distance, linesAt after offset = []

theorem moves_zero : Moves 0 = Eq := by
  funext entry moved
  rw [Moves, raisedOffset_zero, Except.ok.injEq, eq_iff_iff]
  constructor
  · rintro ⟨sameStart, sameLine⟩
    cases entry
    cases moved
    exact congr (congrArg LineEntry.mk sameStart) sameLine.symm
  · rintro rfl
    exact ⟨rfl, rfl⟩

theorem follow_of_moves {distance : UInt16} {before after : List LineEntry}
    (moves : List.Forall₂ (Moves distance) before after) :
    Follow distance.toNat before after where
  behind offset := by
    have pairs : List.Forall₂ (Moves distance) (before.filter (·.start.toNat = offset))
        (after.filter (·.start.toNat = offset + distance.toNat)) := by
      refine forall₂_filter moves fun entry moved pair => ?_
      have := toNat_of_raisedOffset pair.1
      omega
    have sameLines : List.Forall₂ (fun line old => line = old) (linesAt after _)
        (linesAt before offset) :=
      List.forall₂_map_left_iff.mpr
        (List.forall₂_map_right_iff.mpr (pairs.imp fun _ _ pair => pair.2).flip)
    exact List.forall₂_eq_eq_eq ▸ sameLines
  inFront offset inFront := by
    refine List.map_eq_nil_iff.mpr (filter_eq_nil_of_forall₂ moves fun entry moved pair => ?_)
    have := toNat_of_raisedOffset pair.1
    omega

end LineEntry

/-! ### Variables -/

namespace VariableRange

/-- Whether the variable is live at this offset. -/
def Contains (range : VariableRange) (offset : Nat) : Prop :=
  range.start.toNat ≤ offset ∧ offset < range.start.toNat + range.length.toNat

instance (range : VariableRange) (offset : Nat) : Decidable (range.Contains offset) :=
  inferInstanceAs (Decidable (_ ∧ _))

/-- The second range is the first one with its end moved on, and its start as well unless
that is 0. -/
structure Stretched (distance : Nat) (range stretched : VariableRange) : Prop where
  start : stretched.start.toNat =
    if range.start.toNat = 0 then 0 else range.start.toNat + distance
  stop : stretched.start.toNat + stretched.length.toNat =
    range.start.toNat + range.length.toNat + distance
  details : stretched.details = range.details

theorem stretched_of_moves {name : String} {distance : UInt16} {range moved : VariableRange}
    (moves : range.Moves name distance moved) : Stretched distance.toNat range moved := by
  obtain ⟨shifted, sameDetails⟩ := moves
  unfold shiftedBounds at shifted
  split at shifted
  case isTrue fromStart =>
    obtain ⟨length, widened, same⟩ := bindExcept_eq_ok_iff.mp shifted
    obtain ⟨unmoved, sameLength⟩ := Prod.mk.inj (Except.ok.inj same)
    have longer := toNat_of_raisedOffset widened
    rw [sameLength] at longer
    refine ⟨?_, ?_, sameDetails⟩
    · rw [← unmoved, fromStart]
      rfl
    · rw [← unmoved, fromStart, longer]
      exact (Nat.add_assoc _ _ _).symm
  case isFalse later =>
    obtain ⟨start, raised, same⟩ := bindExcept_eq_ok_iff.mp shifted
    obtain ⟨sameStart, sameLength⟩ := Prod.mk.inj (Except.ok.inj same)
    have further := toNat_of_raisedOffset raised
    rw [sameStart] at further
    have notZero : range.start.toNat ≠ 0 := fun zero => later (UInt16.toNat_inj.mp zero)
    refine ⟨?_, ?_, sameDetails⟩
    · rw [if_neg notZero, further]
    · rw [← sameLength, further]
      exact Nat.add_right_comm _ _ _

theorem moves_zero (name : String) : Moves name 0 = Eq := by
  funext range moved
  have unmoved :
      shiftedBounds name 0 range.start range.length = .ok (range.start, range.length) := by
    unfold shiftedBounds
    split
    case isTrue fromStart =>
      rw [raisedOffset_zero, fromStart]
      rfl
    case isFalse =>
      rw [raisedOffset_zero]
      rfl
  rw [Moves, unmoved, Except.ok.injEq, Prod.mk.injEq, eq_iff_iff]
  constructor
  · rintro ⟨⟨sameStart, sameLength⟩, sameDetails⟩
    cases range
    cases moved
    exact congr (congr (congrArg VariableRange.mk sameStart) sameLength) sameDetails.symm
  · rintro rfl
    exact ⟨⟨rfl, rfl⟩, rfl⟩

/-- The variables that are live at an offset. -/
def liveAt (ranges : List VariableRange) (offset : Nat) : List VariableRange :=
  ranges.filter (·.Contains offset)

/-- The variables of a body are live at the same instructions, `distance` bytes further
on. What is live at one in front of them is what was live from the first one on. -/
structure Follow (distance : Nat) (before after : List VariableRange) : Prop where
  behind (offset : Nat) : List.Forall₂ (Stretched distance) (liveAt before offset)
    (liveAt after (offset + distance))
  inFront : ∀ offset < distance, List.Forall₂ (Stretched distance)
    (before.filter (·.start.toNat = 0)) (liveAt after offset)

theorem follow_of_stretched {distance : Nat} {before after : List VariableRange}
    (stretched : List.Forall₂ (Stretched distance) before after) :
    Follow distance before after where
  behind offset := by
    refine forall₂_filter stretched fun range moved pair => ?_
    have start := pair.start
    have := pair.stop
    unfold Contains
    split at start <;> omega
  inFront offset inFront := by
    refine forall₂_filter stretched fun range moved pair => ?_
    have start := pair.start
    have := pair.stop
    unfold Contains
    split at start <;> omega

end VariableRange

/-! ### Reading tables -/

namespace DebugTable

/-- The entries of a line table. -/
def lines (info : Bytes) : Except ClassFileError (List LineEntry) :=
  ofBytes LineEntry.attributeName (LineEntry.readShifted 0) info

/-- The ranges of the named variable table. -/
def ranges (name : String) (info : Bytes) : Except ClassFileError (List VariableRange) :=
  ofBytes name (VariableRange.readShifted name 0) info

theorem lines_eq_ok_iff {info : Bytes} {entries : List LineEntry} :
    lines info = .ok entries ↔ entries.length < 65536 ∧ info = bytes LineEntry.bytes entries := by
  rw [lines, ofBytes_eq_ok_iff_forall₂ (LineEntry.accepts_readShifted 0)]
  simp only [LineEntry.moves_zero, List.forall₂_eq_eq_eq]
  simp

theorem ranges_eq_ok_iff {name : String} {info : Bytes} {entries : List VariableRange} :
    ranges name info = .ok entries ↔ entries.length < 65536 ∧
      info = bytes VariableRange.bytes entries ∧ ∀ range ∈ entries, range.Fits := by
  rw [ranges, ofBytes_eq_ok_iff_forall₂ (VariableRange.accepts_readShifted name 0)]
  simp only [VariableRange.moves_zero, List.forall₂_eq_eq_eq]
  simp

theorem lines_bytes_of_moves {distance : UInt16} {info : Bytes} {before after : List LineEntry}
    (read : lines info = .ok before)
    (moves : List.Forall₂ (LineEntry.Moves distance) before after) :
    lines (bytes LineEntry.bytes after) = .ok after := by
  obtain ⟨room, -⟩ := lines_eq_ok_iff.mp read
  exact lines_eq_ok_iff.mpr ⟨moves.length_eq ▸ room, rfl⟩

/-- A line table is moved entry by entry, and what comes out is again a line table. -/
theorem shiftLines_eq_ok_iff {distance : UInt16} {info moved : Bytes} :
    shiftLines distance info = .ok moved ↔
      ∃ before after, lines info = .ok before ∧ lines moved = .ok after ∧
        List.Forall₂ (LineEntry.Moves distance) before after := by
  have readMoved {after : List LineEntry} :
      ofBytes LineEntry.attributeName (LineEntry.readShifted distance) info = .ok after ↔ _ :=
    ofBytes_eq_ok_iff_forall₂ (LineEntry.accepts_readShifted distance)
  constructor
  · intro success
    obtain ⟨after, read, written⟩ := bindExcept_eq_ok_iff.mp success
    cases written
    obtain ⟨before, room, same, -, moves⟩ := readMoved.mp read
    have readBefore : lines info = .ok before := lines_eq_ok_iff.mpr ⟨room, same⟩
    exact ⟨before, after, readBefore, lines_bytes_of_moves readBefore moves, moves⟩
  · rintro ⟨before, after, read, readAfter, moves⟩
    obtain ⟨room, same⟩ := lines_eq_ok_iff.mp read
    obtain ⟨-, rfl⟩ := lines_eq_ok_iff.mp readAfter
    exact bindExcept_eq_ok_iff.mpr
      ⟨after, readMoved.mpr ⟨before, room, same, fun _ _ => trivial, moves⟩, rfl⟩

/-- A range that can be written can be after a move, which does not touch its details. -/
theorem ranges_bytes_of_moves {name : String} {distance : UInt16} {info : Bytes}
    {before after : List VariableRange} (read : ranges name info = .ok before)
    (moves : List.Forall₂ (VariableRange.Moves name distance) before after) :
    ranges name (bytes VariableRange.bytes after) = .ok after := by
  obtain ⟨room, -, fit⟩ := ranges_eq_ok_iff.mp read
  refine ranges_eq_ok_iff.mpr ⟨moves.length_eq ▸ room, rfl, fun range member => ?_⟩
  obtain ⟨original, there, -, sameDetails⟩ := exists_of_mem_forall₂ moves member
  rw [VariableRange.Fits, sameDetails]
  exact fit original there

/-- A variable table is moved entry by entry, and what comes out is again a table of that
name. -/
theorem shiftVariables_eq_ok_iff {name : String} {distance : UInt16} {info moved : Bytes} :
    shiftVariables name distance info = .ok moved ↔
      ∃ before after, ranges name info = .ok before ∧ ranges name moved = .ok after ∧
        List.Forall₂ (VariableRange.Moves name distance) before after := by
  have readMoved {after : List VariableRange} :
      ofBytes name (VariableRange.readShifted name distance) info = .ok after ↔ _ :=
    ofBytes_eq_ok_iff_forall₂ (VariableRange.accepts_readShifted name distance)
  constructor
  · intro success
    obtain ⟨after, read, written⟩ := bindExcept_eq_ok_iff.mp success
    cases written
    obtain ⟨before, room, same, fit, moves⟩ := readMoved.mp read
    have readBefore : ranges name info = .ok before := ranges_eq_ok_iff.mpr ⟨room, same, fit⟩
    exact ⟨before, after, readBefore, ranges_bytes_of_moves readBefore moves, moves⟩
  · rintro ⟨before, after, read, readAfter, moves⟩
    obtain ⟨room, same, fit⟩ := ranges_eq_ok_iff.mp read
    obtain ⟨-, rfl, -⟩ := ranges_eq_ok_iff.mp readAfter
    exact bindExcept_eq_ok_iff.mpr ⟨after, readMoved.mpr ⟨before, room, same, fit, moves⟩, rfl⟩

/-- A line table that was moved is a line table, and describes the same instructions. -/
theorem follow_of_shiftLines {distance : UInt16} {info moved : Bytes}
    (success : shiftLines distance info = .ok moved) :
    ∃ before after, lines info = .ok before ∧ lines moved = .ok after ∧
      LineEntry.Follow distance.toNat before after := by
  obtain ⟨before, after, read, readAfter, moves⟩ := shiftLines_eq_ok_iff.mp success
  exact ⟨before, after, read, readAfter, LineEntry.follow_of_moves moves⟩

/-- A variable table that was moved is a variable table, and describes the same
instructions. -/
theorem follow_of_shiftVariables {name : String} {distance : UInt16} {info moved : Bytes}
    (success : shiftVariables name distance info = .ok moved) :
    ∃ before after, ranges name info = .ok before ∧ ranges name moved = .ok after ∧
      VariableRange.Follow distance.toNat before after := by
  obtain ⟨before, after, read, readAfter, moves⟩ := shiftVariables_eq_ok_iff.mp success
  have stretched := moves.imp fun _ _ pair => VariableRange.stretched_of_moves pair
  exact ⟨before, after, read, readAfter, VariableRange.follow_of_stretched stretched⟩

end DebugTable

/-! ### The attributes of a method -/

namespace MethodCode

/-- The names of the attributes whose offsets an insertion moves. -/
def movedNames : List String :=
  [LineEntry.attributeName, VariableRange.attributeName, VariableRange.typeAttributeName,
    StackMapTable.attributeName]

/-- Whether the attribute has this name and is not dropped for it. -/
def keeps (pool : ConstantPool) (item : Attribute) : Bool :=
  match pool.utf8 item.nameIndex with
  | .ok name => name ∉ typeAnnotationNames
  | .error _ => true

/-- What is kept of the named attribute says the same about the instructions of a body,
`distance` bytes further on. What has no table of offsets is kept as it is. -/
structure Described (distance : Nat) (name : String) (item kept : Attribute) : Prop where
  sameName : kept.nameIndex = item.nameIndex
  lines : name = LineEntry.attributeName →
    ∃ before after, DebugTable.lines item.info = .ok before ∧
      DebugTable.lines kept.info = .ok after ∧ LineEntry.Follow distance before after
  ranges : name = VariableRange.attributeName ∨ name = VariableRange.typeAttributeName →
    ∃ before after, DebugTable.ranges name item.info = .ok before ∧
      DebugTable.ranges name kept.info = .ok after ∧ VariableRange.Follow distance before after
  others : name ∉ movedNames → kept.info = item.info

/-- An attribute that is kept describes what it described. -/
theorem Moves.described {distance : UInt16} {item kept : Attribute} {name : String}
    {moved : MovedAttribute} (moves : Moves distance item name moved)
    (remains : moved.kept = some kept) : Described distance.toNat name item kept := by
  cases moves with
  | lines shifted =>
      cases remains
      exact ⟨rfl, fun _ => DebugTable.follow_of_shiftLines shifted,
        fun impossible => absurd impossible (by decide),
        fun notMoved => absurd (by decide) notMoved⟩
  | ranges named shifted =>
      cases remains
      have notLines : name ≠ LineEntry.attributeName := by rcases named with rfl | rfl <;> decide
      have moved : name ∈ movedNames := by rcases named with rfl | rfl <;> decide
      exact ⟨rfl, fun impossible => absurd impossible notLines,
        fun _ => DebugTable.follow_of_shiftVariables shifted,
        fun notMoved => absurd moved notMoved⟩
  | frames _ =>
      cases remains
      exact ⟨rfl, fun impossible => absurd impossible (by decide),
        fun impossible => absurd impossible (by decide),
        fun notMoved => absurd (by decide) notMoved⟩
  | dropped _ => cases remains
  | untouched notLines notByDescriptor notBySignature _ _ =>
      cases remains
      exact ⟨rfl, fun impossible => absurd impossible notLines,
        fun impossible => absurd impossible (not_or.mpr ⟨notByDescriptor, notBySignature⟩),
        fun _ => rfl⟩

theorem Moves.kept_eq_none_iff {distance : UInt16} {item : Attribute} {name : String}
    {moved : MovedAttribute} (moves : Moves distance item name moved) :
    moved.kept = none ↔ name ∈ typeAnnotationNames := by
  cases moves with
  | lines _ => exact iff_of_false nofun (by decide)
  | ranges named _ =>
      have remains : name ∉ typeAnnotationNames := by rcases named with rfl | rfl <;> decide
      exact iff_of_false nofun remains
  | frames _ => exact iff_of_false nofun (by decide)
  | dropped annotations => exact iff_of_true rfl annotations
  | untouched _ _ _ _ notAnnotations => exact iff_of_false nofun notAnnotations

/-- What is kept of a list of attributes are those that are not dropped, in their order,
and each of them describes what it described. -/
theorem described_of_moved {pool : ConstantPool} {distance : UInt16} {items : List Attribute}
    {moved : List MovedAttribute}
    (success : List.Forall₂ (fun item result => moveAttribute pool distance item = .ok result)
      items moved) :
    List.Forall₂ (fun item kept => ∃ name, pool.utf8 item.nameIndex = .ok name ∧
        Described distance.toNat name item kept)
      (items.filter (keeps pool)) (moved.filterMap MovedAttribute.kept) := by
  induction success with
  | nil => exact .nil
  | @cons item result items results first _ ih =>
      obtain ⟨name, resolved, moves⟩ := moves_of_moveAttribute first
      have kept : keeps pool item = decide (name ∉ typeAnnotationNames) := by rw [keeps, resolved]
      rw [List.filter_cons, List.filterMap_cons, kept]
      cases remains : result.kept with
      | none =>
          have annotations := moves.kept_eq_none_iff.mp remains
          simpa [annotations] using ih
      | some left =>
          have notAnnotations : name ∉ typeAnnotationNames := fun annotations => by
            rw [moves.kept_eq_none_iff.mpr annotations] at remains
            cases remains
          rw [decide_eq_true notAnnotations, if_pos rfl]
          exact .cons ⟨name, resolved, moves.described remains⟩ ih

/-- After an insertion the tables of a method describe the same instructions as before.
Its handlers, its lines and its variables are recorded where they were, moved on by the
fragment's length; attributes without a table are what they were, in the same order, and
only type annotations are gone. -/
theorem insertPrologue_keeps_tables {body extended : MethodCode} {pool : ConstantPool}
    {fragment : Fragment} (inserted : body.insertPrologue pool fragment = .ok extended) :
    ExceptionEntry.Follow fragment.length body.exceptions extended.exceptions ∧
      List.Forall₂ (fun item kept => ∃ name, pool.utf8 item.nameIndex = .ok name ∧
          Described fragment.length name item kept)
        (body.attributes.filter (keeps pool)) extended.attributes := by
  obtain ⟨-, short, exceptions, moved, exceptionsMoved, attributesMoved, -, rfl⟩ :=
    insertPrologue_eq_ok_iff.mp inserted
  have distance : (UInt16.ofNat fragment.length).toNat = fragment.length := by
    rw [maxCodeLength] at short
    exact Word.toNat_ofNat16 (by omega)
  have raised := (mapExcept_eq_ok_iff.mp exceptionsMoved).imp
    fun _ _ success => ExceptionEntry.raised_of_shifted success
  have described := described_of_moved (mapExcept_eq_ok_iff.mp attributesMoved)
  rw [distance] at raised described
  exact ⟨ExceptionEntry.follow_of_raised raised, described⟩

/-- A pool with the names of three attributes. -/
def tableNames : ConstantPool where
  slots := #[none, some (.utf8 (Text.ModifiedUtf8.encode LineEntry.attributeName)),
    some (.utf8 (Text.ModifiedUtf8.encode VariableRange.attributeName)),
    some (.utf8 (Text.ModifiedUtf8.encode "RuntimeVisibleTypeAnnotations"))]

/-- A method whose first two instructions are protected by the last one. It has a line at
its second instruction, a variable that is live from the first instruction on and another
that is live from the second one on, and a type annotation. -/
def tableSample : MethodCode where
  maxStack := 1
  maxLocals := 2
  code := [Opcode.nop, Opcode.nop, Opcode.returnVoid]
  exceptions := [⟨0, 2, 2, 0⟩]
  attributes := [⟨1, [0, 1, 0, 1, 0, 7]⟩, ⟨3, [0, 0]⟩,
    ⟨2, [0, 2, 0, 0, 0, 3, 0, 5, 0, 6, 0, 0, 0, 1, 0, 2, 0, 8, 0, 6, 0, 1]⟩]

/-- That method behind four bytes. -/
def movedTableSample : MethodCode where
  maxStack := 1
  maxLocals := 2
  code := fourNops.code ++ tableSample.code
  exceptions := [⟨4, 6, 6, 0⟩]
  attributes := [⟨1, [0, 1, 0, 5, 0, 7]⟩,
    ⟨2, [0, 2, 0, 0, 0, 7, 0, 5, 0, 6, 0, 0, 0, 5, 0, 2, 0, 8, 0, 6, 0, 1]⟩]

/-- What the tables of that method say is what they said before. -/
theorem insertPrologue_keeps_tables_of_tableSample :
    tableSample.insertPrologue tableNames fourNops = .ok movedTableSample ∧
      ExceptionEntry.Follow 4 tableSample.exceptions movedTableSample.exceptions ∧
      List.Forall₂ (fun item kept => ∃ name, tableNames.utf8 item.nameIndex = .ok name ∧
          Described 4 name item kept)
        (tableSample.attributes.filter (keeps tableNames)) movedTableSample.attributes := by
  have inserted : tableSample.insertPrologue tableNames fourNops = .ok movedTableSample :=
    eq_ok_of_toOption (by decide +kernel)
  exact ⟨inserted, insertPrologue_keeps_tables inserted⟩

end MethodCode

end Lookout
