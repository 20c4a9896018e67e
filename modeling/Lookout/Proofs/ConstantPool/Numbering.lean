/-
# How slots are numbered

The index of a constant is the number of the slot that it stands in. Slot 0 is empty, and
so is the slot behind a long or a double; all others hold a constant. This is the order
that a class file prescribes, and it is what is read from one. Interning only puts slots
behind the others, so it stays that way, whether requests are answered or not. There are
never more slots than 16 bits can count, and while a pool is read the index of the next
slot never leaves 16 bits either.
-/

import Lookout.Proofs.ConstantPool.RoundTrip

namespace Lookout.ConstantPool

/-! ### Rows of slots -/

/-- Behind a constant that takes two slots there is an empty one. -/
theorem slotsOfAll_behind_wide {constants : List Constant} {position : Nat} {wide : Constant}
    (there : (slotsOfAll constants)[position]? = some (some wide)) (isWide : wide.isWide = true) :
    (slotsOfAll constants)[position + 1]? = some none := by
  induction constants generalizing position with
  | nil => cases there
  | cons constant constants ih =>
      rw [slotsOfAll_cons] at there ⊢
      by_cases two : constant.isWide = true
      · rw [slotsOf, if_pos two] at there ⊢
        match position with
        | 0 => rfl
        | 1 => cases there
        | position + 2 => exact ih there
      · rw [slotsOf, if_neg two] at there ⊢
        match position with
        | 0 =>
            cases there
            exact absurd isWide two
        | position + 1 => exact ih there

/-- An empty slot in a row of constants is the second one of a constant that takes two. -/
theorem exists_wide_of_slotsOfAll_empty {constants : List Constant} {position : Nat}
    (empty : (slotsOfAll constants)[position]? = some none) :
    ∃ before wide, position = before + 1 ∧
      (slotsOfAll constants)[before]? = some (some wide) ∧ wide.isWide = true := by
  induction constants generalizing position with
  | nil => cases empty
  | cons constant constants ih =>
      rw [slotsOfAll_cons] at empty ⊢
      by_cases two : constant.isWide = true
      · rw [slotsOf, if_pos two] at empty ⊢
        match position with
        | 0 => cases empty
        | 1 => exact ⟨0, constant, rfl, rfl, two⟩
        | position + 2 =>
            obtain ⟨before, wide, rfl, there, isWide⟩ := ih empty
            exact ⟨before + 2, wide, rfl, there, isWide⟩
      · rw [slotsOf, if_neg two] at empty ⊢
        match position with
        | 0 => cases empty
        | position + 1 =>
            obtain ⟨before, wide, rfl, there, isWide⟩ := ih empty
            exact ⟨before + 1, wide, rfl, there, isWide⟩

/-! ### Indices -/

/-- An index that names no constant is reported as it is. -/
theorem get_eq_error_iff {pool : ConstantPool} {index : UInt16} {fault : ClassFileError} :
    pool.get index = .error fault ↔
      fault = .badConstantIndex index ∧
        ∀ constant, pool.slots[index.toNat]? ≠ some (some constant) := by
  rw [get]
  split
  · rename_i constant there
    constructor
    · intro impossible
      cases impossible
    · rintro ⟨-, nothing⟩
      exact absurd there (nothing constant)
  · rename_i nothing
    rw [Except.error.injEq, eq_comm]
    exact ⟨fun same => ⟨same, nothing⟩, And.left⟩

/-- The numbering that a class file prescribes. The slots can be counted in 16 bits, and
an index names no constant exactly if it is 0, stands behind that of a long or double, or
is not that of a slot. -/
structure Numbered (pool : ConstantPool) : Prop where
  counted : pool.count = pool.slots.size ∧ pool.count ≤ 65535 ∧
    (UInt16.ofNat pool.count).toNat = pool.count
  first : pool.get 0 = .error (.badConstantIndex 0)
  inside : ∀ index : UInt16, 0 < index.toNat → index.toNat < pool.count →
    (pool.get index = .error (.badConstantIndex index) ↔
      ∃ wide, pool.get (index - 1) = .ok wide ∧ wide.isWide = true)
  outside : ∀ index : UInt16, pool.count ≤ index.toNat →
    pool.get index = .error (.badConstantIndex index)
  last : ∀ (index : UInt16) (constant : Constant), pool.get index = .ok constant →
    index.toNat + 1 = pool.count → constant.isWide = false

section WellFormed

variable {pool : ConstantPool} {constants : List Constant} {index : UInt16}

/-- Behind slot 0 the slots are those of a row of constants. -/
theorem getElem?_succ_slots (laidOut : pool.slots.toList = none :: slotsOfAll constants)
    (position : Nat) : pool.slots[position + 1]? = (slotsOfAll constants)[position]? := by
  rw [← Array.getElem?_toList, laidOut, List.getElem?_cons_succ]

theorem get_zero (laidOut : pool.slots.toList = none :: slotsOfAll constants) :
    pool.get 0 = .error (.badConstantIndex 0) := by
  refine get_eq_error_iff.mpr ⟨rfl, fun constant there => ?_⟩
  rw [← Array.getElem?_toList, laidOut] at there
  cases there

/-- A constant that takes two slots is followed by an index that names none. -/
theorem get_behind_wide (laidOut : pool.slots.toList = none :: slotsOfAll constants)
    {position : Nat} {wide : Constant} (there : pool.slots[position]? = some (some wide))
    (isWide : wide.isWide = true) : pool.slots[position + 1]? = some none := by
  cases position with
  | zero =>
      rw [← Array.getElem?_toList, laidOut] at there
      cases there
  | succ position =>
      rw [getElem?_succ_slots laidOut] at there ⊢
      exact slotsOfAll_behind_wide there isWide

/-- An index of a slot names no constant exactly if the one before names one that takes two
slots. -/
theorem get_eq_error_iff_wide (laidOut : pool.slots.toList = none :: slotsOfAll constants)
    (positive : 0 < index.toNat) (inside : index.toNat < pool.count) :
    pool.get index = .error (.badConstantIndex index) ↔
      ∃ wide, pool.get (index - 1) = .ok wide ∧ wide.isWide = true := by
  have before : index.toNat = (index - 1).toNat + 1 := by
    have one : (1 : UInt16) ≤ index := by
      rw [UInt16.le_iff_toNat_le]
      exact positive
    rw [UInt16.toNat_sub_of_le _ _ one]
    show index.toNat = index.toNat - 1 + 1
    omega
  rw [get_eq_error_iff]
  constructor
  · rintro ⟨-, nothing⟩
    obtain ⟨slot, there⟩ : ∃ slot, pool.slots[index.toNat]? = some slot :=
      ⟨_, Array.getElem?_eq_getElem inside⟩
    cases slot with
    | some constant => exact absurd there (nothing constant)
    | none =>
        rw [before, getElem?_succ_slots laidOut] at there
        obtain ⟨position, wide, same, wideThere, isWide⟩ := exists_wide_of_slotsOfAll_empty there
        refine ⟨wide, get_eq_ok_iff.mpr ?_, isWide⟩
        rw [same, getElem?_succ_slots laidOut, wideThere]
  · rintro ⟨wide, found, isWide⟩
    refine ⟨rfl, fun constant there => ?_⟩
    rw [before, get_behind_wide laidOut (get_eq_ok_iff.mp found) isWide] at there
    cases there

/-- A pool of the right form is numbered as it should be. -/
theorem WellFormed.numbered (wellFormed : pool.WellFormed) : pool.Numbered := by
  obtain ⟨⟨constants, laidOut⟩, small⟩ := wellFormed
  have small : pool.count ≤ 65535 := small
  refine ⟨⟨rfl, small, Word.toNat_ofNat16 (by omega)⟩, get_zero laidOut, ?_, ?_, ?_⟩
  · intro index positive inside
    exact get_eq_error_iff_wide laidOut positive inside
  · intro index behind
    refine get_eq_error_iff.mpr ⟨rfl, fun constant there => ?_⟩
    have inside := (Array.getElem?_eq_some_iff.mp there).1
    exact absurd inside (Nat.not_lt.mpr behind)
  · intro index constant found atEnd
    rw [Bool.eq_false_iff]
    intro isWide
    have behind := get_behind_wide laidOut (get_eq_ok_iff.mp found) isWide
    have inside := (Array.getElem?_eq_some_iff.mp behind).1
    rw [atEnd] at inside
    exact absurd inside (Nat.lt_irrefl _)

end WellFormed

/-! ### Reading with an index of 16 bits -/

/-- The index behind this one, if 16 bits can hold it. -/
def nextIndex? (index : UInt16) : Option UInt16 :=
  if index.toNat + 1 < 65536 then some (index + 1) else none

theorem toNat_of_nextIndex? {index next : UInt16} (success : nextIndex? index = some next) :
    next.toNat = index.toNat + 1 := by
  unfold nextIndex? at success
  split at success
  · rename_i room
    cases success
    rw [UInt16.toNat_add]
    show (index.toNat + 1) % 65536 = _
    omega
  · cases success

/-- Below a count of 16 bits there is always room for one index more. -/
theorem nextIndex?_ne_none {index count : UInt16} (below : index < count) :
    nextIndex? index ≠ none := by
  have bound := count.toNat_lt
  rw [UInt16.lt_iff_toNat_lt] at below
  rw [nextIndex?, if_pos (by omega)]
  exact Option.some_ne_none _

/-- Read slots as `readSlotsOnto` does, keeping the index of the next slot in 16 bits. It
gives up where the index would have to leave them. -/
def readSlotsIndexed (count index : UInt16) (slots : Array (Option Constant)) (cursor : Cursor) :
    Option (Except ClassFileError (Array (Option Constant) × Cursor)) :=
  if _below : index < count then
    match Constant.read index cursor with
    | .error fault => some (.error fault)
    | .ok (constant, behind) =>
      match _follows : nextIndex? index with
      | none => none
      | some next =>
        if constant.isWide then
          if next < count then
            match _followsNext : nextIndex? next with
            | none => none
            | some later =>
              readSlotsIndexed count later ((slots.push (some constant)).push none) behind
          else some (.error (.badConstantIndex next))
        else readSlotsIndexed count next (slots.push (some constant)) behind
  else some (.ok (slots, cursor))
termination_by count.toNat - index.toNat
decreasing_by
  · have nextIndex := toNat_of_nextIndex? _follows
    have laterIndex := toNat_of_nextIndex? _followsNext
    rw [UInt16.lt_iff_toNat_lt] at _below
    omega
  · have nextIndex := toNat_of_nextIndex? _follows
    rw [UInt16.lt_iff_toNat_lt] at _below
    omega

/-- One constant more is read, and the slots that it takes are put behind the others. -/
private theorem readSlotsOnto_of_read {count index : UInt16} {slots : Array (Option Constant)}
    {cursor behind : Cursor} {constant : Constant} (sameIndex : index.toNat = slots.size)
    (below : index < count) (read : Constant.read index cursor = .ok (constant, behind)) :
    readSlotsOnto count.toNat slots cursor =
      if constant.isWide then
        if index.toNat + 1 < count.toNat then
          readSlotsOnto count.toNat ((slots.push (some constant)).push none) behind
        else .error (.badConstantIndex (UInt16.ofNat (index.toNat + 1)))
      else readSlotsOnto count.toNat (slots.push (some constant)) behind := by
  rw [UInt16.lt_iff_toNat_lt] at below
  rw [readSlotsOnto, ← sameIndex, if_pos below, UInt16.ofNat_toNat, read]

/-- The index never leaves 16 bits, whatever is counted and whatever is read: as long as it
is the number of slots so far, the slots are read as they are with indices of any size. -/
theorem readSlotsIndexed_eq {count index : UInt16} {slots : Array (Option Constant)}
    (cursor : Cursor) (sameIndex : index.toNat = slots.size) :
    readSlotsIndexed count index slots cursor =
      some (readSlotsOnto count.toNat slots cursor) := by
  fun_induction readSlotsIndexed count index slots cursor with
  | case1 index slots cursor below fault failed =>
      rw [UInt16.lt_iff_toNat_lt] at below
      rw [readSlotsOnto, ← sameIndex, if_pos below, UInt16.ofNat_toNat, failed]
  | case2 index slots cursor below constant behind read noNext =>
      exact absurd noNext (nextIndex?_ne_none below)
  | case3 index slots cursor below constant behind read next follows wide nextBelow noLater =>
      exact absurd noLater (nextIndex?_ne_none nextBelow)
  | case4 index slots cursor below constant behind read next follows wide nextBelow later
      followsNext ih =>
      have nextIndex := toNat_of_nextIndex? follows
      have laterIndex := toNat_of_nextIndex? followsNext
      rw [UInt16.lt_iff_toNat_lt] at nextBelow
      rw [readSlotsOnto_of_read sameIndex below read, if_pos wide, if_pos (by omega)]
      apply ih
      simp only [Array.size_push]
      omega
  | case5 index slots cursor below constant behind read next follows wide atEnd =>
      have nextIndex := toNat_of_nextIndex? follows
      rw [UInt16.lt_iff_toNat_lt] at atEnd
      rw [readSlotsOnto_of_read sameIndex below read, if_pos wide, if_neg (by omega), ← nextIndex,
        UInt16.ofNat_toNat]
  | case6 index slots cursor below constant behind read next follows narrow ih =>
      have nextIndex := toNat_of_nextIndex? follows
      rw [readSlotsOnto_of_read sameIndex below read, if_neg narrow]
      apply ih
      rw [Array.size_push]
      omega
  | case7 index slots cursor full =>
      rw [UInt16.lt_iff_toNat_lt] at full
      rw [readSlotsOnto, ← sameIndex, if_neg full]

/-! ### Pools that were read -/

/-- A pool that was read has as many slots as the data says, but never less than slot 0. -/
theorem count_of_read {cursor next : Cursor} {pool : ConstantPool}
    (success : read cursor = .ok (pool, next)) :
    ∃ header more, cursor.rest = Word.bytes16 header ++ more ∧
      pool.count = max 1 header.toNat := by
  obtain ⟨_, ⟨wellFormed, -, spelled⟩, rest, -⟩ := accepts_read.consumed success
  have small : pool.count ≤ 65535 := wellFormed.count_le
  have counted : (UInt16.ofNat pool.count).toNat = pool.count := Word.toNat_ofNat16 (by omega)
  rcases spelled with rfl | ⟨rfl, rfl⟩
  · refine ⟨UInt16.ofNat pool.count, _, by rw [rest, bytes, Word.count16, List.append_assoc], ?_⟩
    obtain ⟨constants, laidOut⟩ := wellFormed.laidOut
    have slotZero := pool.count_eq_length
    rw [laidOut, List.length_cons] at slotZero
    omega
  · exact ⟨0, _, rest, rfl⟩

/-- A pool that was read has as many slots as its data says, and is numbered as a class file
prescribes. Requests leave it so, whether they are answered or not. No index leaves 16 bits
while a pool is read, whatever the data says and whatever comes of it. -/
theorem numbered_serveAll {cursor next : Cursor} {start : ConstantPool}
    (success : read cursor = .ok (start, next)) (requests : List InternRequest) :
    (∃ header more, cursor.rest = Word.bytes16 header ++ more ∧
        start.count = max 1 header.toNat) ∧
      (start.serveAll requests).Numbered ∧
      ∀ (header : UInt16) (data : Cursor), readSlotsIndexed header 1 empty.slots data =
        some (readSlotsOnto header.toNat empty.slots data) :=
  ⟨count_of_read success,
    (grown_serveAll (wellFormed_of_read success) requests).2.numbered,
    fun _ data => readSlotsIndexed_eq data rfl⟩

/-- A pool of four slots with a double in front of a text. -/
def doubleSample : Bytes := [0, 4, 6, 63, 240, 0, 0, 0, 0, 0, 0, 1, 0, 1, 97]

/-- The sample is numbered, and so is what it grows to when it is asked for a string whose
text it has, and for a class whose name it has not. -/
theorem numbered_serveAll_doubleSample :
    ∃ start next, read (Cursor.start doubleSample) = .ok (start, next) ∧
      (start.count = 4 ∧ start.get 1 = .ok (.double 4607182418800017408)) ∧
      (start.serveAll [.string "a", .classInfo "b"]).count = 7 ∧
      (start.serveAll [.string "a", .classInfo "b"]).Numbered := by
  obtain ⟨⟨start, next⟩, success, counts, grown⟩ : ∃ result,
      read (Cursor.start doubleSample) = .ok result ∧
        (result.1.count = 4 ∧ result.1.get 1 = .ok (.double 4607182418800017408)) ∧
        (result.1.serveAll [.string "a", .classInfo "b"]).count = 7 := by
    decide +kernel
  exact ⟨start, next, success, counts, grown, (numbered_serveAll success _).2.1⟩

end Lookout.ConstantPool
