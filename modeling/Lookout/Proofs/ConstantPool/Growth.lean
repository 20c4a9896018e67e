/-
# Pools only grow

Interning appends constants that were not there and changes nothing else. So
what an index leads to stays as it is, a text that some entry spells is spelled
by no new entry, and an index that leads nowhere may come to lead somewhere
only if it lies behind all slots. The lookups by encoded name that find
methods, fields and attributes inherit this.
-/

import Lookout.Proofs.Effect
import Lookout.Proofs.ConstantPool.Format
import Lookout.Proofs.Text.ModifiedUtf8

namespace Lookout

namespace ConstantPool

/-- The second pool is the first with more slots behind, none of which repeats a
constant of the first. -/
def GrowsTo (earlier later : ConstantPool) : Prop :=
  ∃ added, later.slots.toList = earlier.slots.toList ++ added ∧
    ∀ constant, some constant ∈ added → some constant ∉ earlier.slots.toList

namespace GrowsTo

variable {earlier later last : ConstantPool}

protected theorem refl (pool : ConstantPool) : pool.GrowsTo pool := ⟨[], by simp, by simp⟩

protected theorem trans (first : earlier.GrowsTo later) (second : later.GrowsTo last) :
    earlier.GrowsTo last := by
  obtain ⟨added, laterSlots, fresh⟩ := first
  obtain ⟨more, lastSlots, fresher⟩ := second
  refine ⟨added ++ more, by rw [lastSlots, laterSlots, List.append_assoc], ?_⟩
  intro constant member
  rcases List.mem_append.mp member with inAdded | inMore
  · exact fresh constant inAdded
  · intro old
    exact fresher constant inMore (by rw [laterSlots]; exact List.mem_append_left added old)

theorem count_le (grows : earlier.GrowsTo later) : earlier.count ≤ later.count := by
  obtain ⟨added, slots, -⟩ := grows
  rw [count_eq_length, count_eq_length, slots, List.length_append]
  omega

theorem getElem?_eq (grows : earlier.GrowsTo later) {index : Nat} (inside : index < earlier.count) :
    later.slots[index]? = earlier.slots[index]? := by
  obtain ⟨added, slots, -⟩ := grows
  rw [count_eq_length] at inside
  rw [← Array.getElem?_toList, ← Array.getElem?_toList, slots, List.getElem?_append_left inside]

/-- An index below the count leads to what it led to. -/
theorem get_eq (grows : earlier.GrowsTo later) {index : UInt16}
    (inside : index.toNat < earlier.count) : later.get index = earlier.get index := by
  rw [get, get, grows.getElem?_eq inside]

end GrowsTo

theorem get_eq_ok_iff {pool : ConstantPool} {index : UInt16} {constant : Constant} :
    pool.get index = .ok constant ↔ pool.slots[index.toNat]? = some (some constant) := by
  rw [get]
  split
  · rename_i found slot
    rw [slot]
    simp
  · rename_i other
    constructor
    · intro impossible
      cases impossible
    · intro slot
      exact absurd slot (other constant)

theorem lt_count_of_get {pool : ConstantPool} {index : UInt16} {constant : Constant}
    (found : pool.get index = .ok constant) : index.toNat < pool.count := by
  have slot := get_eq_ok_iff.mp found
  exact (Array.getElem?_eq_some_iff.mp slot).1

theorem mem_slots_of_get {pool : ConstantPool} {index : UInt16} {constant : Constant}
    (found : pool.get index = .ok constant) : some constant ∈ pool.slots.toList := by
  have slot := get_eq_ok_iff.mp found
  rw [← Array.getElem?_toList] at slot
  exact List.mem_of_getElem? slot

theorem utf8Matches_iff {pool : ConstantPool} {index : UInt16} {text : String} :
    pool.utf8Matches index text = true ↔
      pool.get index = .ok (.utf8 (Text.ModifiedUtf8.encode text)) := by
  unfold utf8Matches
  split
  · rename_i bytes found
    simp [found]
  · rename_i other
    constructor
    · intro impossible
      cases impossible
    · intro found
      exact absurd found (other _)

theorem utf8_eq_ok_iff {pool : ConstantPool} {index : UInt16} {text : String} :
    pool.utf8 index = .ok text ↔
      ∃ bytes, pool.get index = .ok (.utf8 bytes) ∧
        Text.ModifiedUtf8.decode? bytes = some text := by
  constructor
  · intro found
    obtain ⟨bytes, there, decoded⟩ := bindExcept_eq_ok_iff.mp found
    obtain ⟨constant, there, isText⟩ := bindExcept_eq_ok_iff.mp there
    cases constant with
    | utf8 encoded =>
        cases isText
        cases read : Text.ModifiedUtf8.decode? bytes with
        | none =>
            rw [read] at decoded
            cases decoded
        | some other =>
            rw [read] at decoded
            cases decoded
            exact ⟨bytes, there, read⟩
    | _ => cases isText
  · rintro ⟨bytes, there, read⟩
    refine bindExcept_eq_ok_iff.mpr ⟨bytes, bindExcept_eq_ok_iff.mpr ⟨_, there, rfl⟩, ?_⟩
    rw [read]

/-- An entry in the prescribed encoding of a text is decoded to the text. -/
theorem utf8_of_utf8Matches {pool : ConstantPool} {index : UInt16} {text : String}
    (same : pool.utf8Matches index text = true) : pool.utf8 index = .ok text :=
  utf8_eq_ok_iff.mpr ⟨_, utf8Matches_iff.mp same, Text.ModifiedUtf8.decode?_encode text⟩

/-- A reference to a member, of any of the three kinds, and what it refers to. -/
theorem memberReference_eq_ok_iff {pool : ConstantPool} {index : UInt16}
    {member : MemberReference} :
    pool.memberReference index = .ok member ↔
      ∃ make owner pair name descriptor,
        (make = Constant.fieldRef ∨ make = .methodRef ∨ make = .interfaceMethodRef) ∧
          pool.get index = .ok (make owner pair) ∧
          pool.get pair = .ok (.nameAndType name descriptor) ∧
          pool.className owner = .ok member.owner ∧ pool.utf8 name = .ok member.name ∧
          pool.utf8 descriptor = .ok member.descriptor := by
  constructor
  · intro found
    obtain ⟨constant, there, found⟩ := bindExcept_eq_ok_iff.mp found
    cases constant with
    | fieldRef owner pair | methodRef owner pair | interfaceMethodRef owner pair =>
        obtain ⟨constant, pairThere, found⟩ := bindExcept_eq_ok_iff.mp found
        cases constant with
        | nameAndType name descriptor =>
            obtain ⟨_, ownerThere, found⟩ := bindExcept_eq_ok_iff.mp found
            obtain ⟨_, nameThere, found⟩ := bindExcept_eq_ok_iff.mp found
            obtain ⟨_, descriptorThere, found⟩ := bindExcept_eq_ok_iff.mp found
            cases found
            exact ⟨_, owner, pair, name, descriptor, by simp, there, pairThere, ownerThere,
              nameThere, descriptorThere⟩
        | _ => cases found
    | _ => cases found
  · rintro ⟨_, owner, pair, name, descriptor, rfl | rfl | rfl, there, pairThere, ownerThere,
      nameThere, descriptorThere⟩ <;>
    exact bindExcept_eq_ok_iff.mpr ⟨_, there, bindExcept_eq_ok_iff.mpr ⟨_, pairThere,
      bindExcept_eq_ok_iff.mpr ⟨_, ownerThere, bindExcept_eq_ok_iff.mpr ⟨_, nameThere,
        bindExcept_eq_ok_iff.mpr ⟨_, descriptorThere, rfl⟩⟩⟩⟩⟩

namespace GrowsTo

variable {earlier later : ConstantPool}

theorem get_eq_ok (grows : earlier.GrowsTo later) {index : UInt16} {constant : Constant}
    (found : earlier.get index = .ok constant) : later.get index = .ok constant := by
  rw [grows.get_eq (lt_count_of_get found), found]

/-- A constant that was there is at no index that led nowhere. -/
theorem get_eq_ok_iff_of_mem (grows : earlier.GrowsTo later) {constant : Constant}
    (old : some constant ∈ earlier.slots.toList) {index : UInt16} :
    later.get index = .ok constant ↔ earlier.get index = .ok constant := by
  refine ⟨fun found => ?_, grows.get_eq_ok⟩
  by_cases inside : index.toNat < earlier.count
  · rwa [← grows.get_eq inside]
  · obtain ⟨added, slots, fresh⟩ := grows
    rw [count_eq_length] at inside
    have slot := get_eq_ok_iff.mp found
    rw [← Array.getElem?_toList, slots, List.getElem?_append_right (Nat.not_lt.mp inside)] at slot
    exact absurd old (fresh constant (List.mem_of_getElem? slot))

theorem utf8Matches_of_lt (grows : earlier.GrowsTo later) {index : UInt16}
    (inside : index.toNat < earlier.count) (text : String) :
    later.utf8Matches index text = earlier.utf8Matches index text := by
  rw [utf8Matches, utf8Matches, grows.get_eq inside]

theorem utf8Matches (grows : earlier.GrowsTo later) {index : UInt16} {text : String}
    (same : earlier.utf8Matches index text = true) : later.utf8Matches index text = true :=
  utf8Matches_iff.mpr (grows.get_eq_ok (utf8Matches_iff.mp same))

/-- A text that some entry spells is spelled by the entries that spelled it before. -/
theorem utf8Matches_eq (grows : earlier.GrowsTo later) {text : String} {witness : UInt16}
    (spelled : earlier.utf8Matches witness text = true) (index : UInt16) :
    later.utf8Matches index text = earlier.utf8Matches index text := by
  have old := mem_slots_of_get (utf8Matches_iff.mp spelled)
  rw [Bool.eq_iff_iff, utf8Matches_iff, utf8Matches_iff, grows.get_eq_ok_iff_of_mem old]

theorem utf8Bytes (grows : earlier.GrowsTo later) {index : UInt16} {bytes : Bytes}
    (found : earlier.utf8Bytes index = .ok bytes) : later.utf8Bytes index = .ok bytes := by
  obtain ⟨constant, there, same⟩ := bindExcept_eq_ok_iff.mp found
  exact bindExcept_eq_ok_iff.mpr ⟨constant, grows.get_eq_ok there, same⟩

theorem utf8 (grows : earlier.GrowsTo later) {index : UInt16} {text : String}
    (found : earlier.utf8 index = .ok text) : later.utf8 index = .ok text := by
  obtain ⟨bytes, there, same⟩ := bindExcept_eq_ok_iff.mp found
  exact bindExcept_eq_ok_iff.mpr ⟨bytes, grows.utf8Bytes there, same⟩

/-- An index below the count leads to the text that it led to, or still to none. -/
theorem utf8_eq (grows : earlier.GrowsTo later) {index : UInt16}
    (inside : index.toNat < earlier.count) : later.utf8 index = earlier.utf8 index := by
  rw [ConstantPool.utf8, ConstantPool.utf8, ConstantPool.utf8Bytes, ConstantPool.utf8Bytes,
    grows.get_eq inside]

theorem className (grows : earlier.GrowsTo later) {index : UInt16} {name : String}
    (found : earlier.className index = .ok name) : later.className index = .ok name := by
  obtain ⟨constant, there, same⟩ := bindExcept_eq_ok_iff.mp found
  refine bindExcept_eq_ok_iff.mpr ⟨constant, grows.get_eq_ok there, ?_⟩
  cases constant with
  | classInfo nameIndex => exact grows.utf8 same
  | _ => exact same

theorem stringText? (grows : earlier.GrowsTo later) {index : UInt16} {text : String}
    (found : earlier.stringText? index = some text) : later.stringText? index = some text := by
  unfold ConstantPool.stringText? at found ⊢
  split at found
  · rename_i textIndex there
    rw [grows.get_eq_ok there]
    dsimp only
    cases decoded : earlier.utf8 textIndex with
    | error fault =>
        rw [decoded] at found
        cases found
    | ok same =>
        rw [decoded] at found
        rw [grows.utf8 decoded]
        exact found
  · cases found

/-- A reference that leads to a member goes on leading to it. -/
theorem memberReference (grows : earlier.GrowsTo later) {index : UInt16} {member : MemberReference}
    (found : earlier.memberReference index = .ok member) :
    later.memberReference index = .ok member := by
  obtain ⟨make, owner, pair, name, descriptor, isReference, there, pairThere, ownerThere, nameThere,
    descriptorThere⟩ := memberReference_eq_ok_iff.mp found
  exact memberReference_eq_ok_iff.mpr ⟨make, owner, pair, name, descriptor, isReference,
    grows.get_eq_ok there, grows.get_eq_ok pairThere, grows.className ownerThere,
    grows.utf8 nameThere, grows.utf8 descriptorThere⟩

end GrowsTo

/-! ### Interning one constant -/

theorem indexOf?_eq_none_iff {pool : ConstantPool} {constant : Constant} :
    pool.indexOf? constant = none ↔ some constant ∉ pool.slots.toList := by
  simp only [indexOf?, Option.map_eq_none_iff, Array.findIdx?_eq_none_iff, beq_eq_false_iff_ne]
  simp only [← Array.mem_toList_iff]
  constructor
  · intro absent old
    exact absent _ old rfl
  · rintro absent slot old rfl
    exact absent old

/-- What interning a constant can do: find it, append its slots, or find no room for
them. -/
theorem intern_cases (pool : ConstantPool) (constant : Constant) :
    (∃ index, pool.indexOf? constant = some index ∧ pool.intern constant = (.ok index, pool)) ∨
      (some constant ∉ pool.slots.toList ∧
        ∃ later : ConstantPool, later.slots.toList = pool.slots.toList ++ slotsOf constant ∧
          later.count ≤ maxSlots ∧ pool.intern constant = (.ok (UInt16.ofNat pool.count), later)) ∨
      (some constant ∉ pool.slots.toList ∧ maxSlots < pool.count + (slotsOf constant).length ∧
        pool.intern constant = (.error .poolOverflow, pool)) := by
  unfold intern
  cases found : pool.indexOf? constant with
  | some index => exact .inl ⟨index, rfl, rfl⟩
  | none =>
      have absent := indexOf?_eq_none_iff.mp found
      by_cases room : pool.count + (slotsOf constant).length ≤ maxSlots
      · refine .inr (.inl ⟨absent, ⟨pool.slots ++ slotsOf constant⟩, by simp, ?_, ?_⟩)
        · rw [count_eq_length]
          simpa [count] using room
        · simp only [append, if_pos room]
      · refine .inr (.inr ⟨absent, Nat.not_le.mp room, ?_⟩)
        simp only [append, if_neg room]

theorem growsTo_intern (pool : ConstantPool) (constant : Constant) :
    pool.GrowsTo (pool.intern constant).2 := by
  rcases pool.intern_cases constant with ⟨_, _, same⟩ | ⟨absent, later, slots, _, same⟩ |
    ⟨_, _, same⟩
  · rw [same]
    exact .refl pool
  · rw [same]
    refine ⟨slotsOf constant, slots, ?_⟩
    intro other member
    rwa [some_mem_slotsOf.mp member]
  · rw [same]
    exact .refl pool

theorem wellFormed_intern {pool : ConstantPool} (wellFormed : pool.WellFormed)
    (constant : Constant) : (pool.intern constant).2.WellFormed := by
  rcases pool.intern_cases constant with
    ⟨_, _, same⟩ | ⟨_, later, slots, small, same⟩ | ⟨_, _, same⟩
  · rwa [same]
  · rw [same]
    obtain ⟨constants, laidOut⟩ := wellFormed.laidOut
    refine ⟨⟨constants ++ [constant], ?_⟩, small⟩
    rw [slots, laidOut, slotsOfAll_append]
    simp [slotsOfAll]
  · rwa [same]

theorem textsFit_intern {pool : ConstantPool} (fit : pool.TextsFit) {constant : Constant}
    (fits : constant.Fits) : (pool.intern constant).2.TextsFit := by
  rcases pool.intern_cases constant with ⟨_, _, same⟩ | ⟨_, later, slots, _, same⟩ | ⟨_, _, same⟩
  · rwa [same]
  · rw [same]
    intro other member
    rw [slots, List.mem_append] at member
    rcases member with old | new
    · exact fit other old
    · rwa [some_mem_slotsOf.mp new]
  · rwa [same]

/-- The index that comes of interning a constant leads to the constant. -/
theorem get_of_intern {pool later : ConstantPool} (small : pool.count ≤ maxSlots)
    {constant : Constant} {index : UInt16} (success : pool.intern constant = (.ok index, later)) :
    later.get index = .ok constant := by
  rcases pool.intern_cases constant with ⟨found, there, same⟩ | ⟨_, grown, slots, fits, same⟩ |
    ⟨_, _, same⟩
  · rw [same] at success
    cases success
    obtain ⟨position, first, rfl⟩ := Option.map_eq_some_iff.mp there
    obtain ⟨inside, same, -⟩ := Array.findIdx?_eq_some_iff_getElem.mp first
    rw [get_eq_ok_iff, Word.toNat_ofNat16 (by simp only [count, maxSlots] at small; omega),
      Array.getElem?_eq_getElem inside]
    simpa using same
  · rw [same] at success
    cases success
    have takes := length_slotsOf_pos constant
    have room := count_eq_length later
    rw [slots, List.length_append, ← count_eq_length] at room
    rw [get_eq_ok_iff, Word.toNat_ofNat16 (by simp only [maxSlots] at fits; omega),
      ← Array.getElem?_toList, slots, count_eq_length, List.getElem?_append_right (Nat.le_refl _),
      Nat.sub_self]
    unfold slotsOf
    split <;> rfl
  · rw [same] at success
    cases success

end ConstantPool

end Lookout
