/-
# The constant pool format is lossless

A pool in a file is a row of constants, each of which takes one or two slots.
What is proved here is that reading and writing are inverse to each other on
pools that have this form: everything that is read has it, and everything that
has it and whose texts fit their 16 bit length is read back as it was. The one
departure is a count of 0, which is read as the empty pool.
-/

import Lookout.ConstantPool.Format
import Lookout.ConstantPool.Interning
import Lookout.Proofs.Bytes.Grammar

namespace Lookout

namespace Constant

open Reader

/-- Whether the written form holds the whole constant. A text has to be short
enough for its length field. -/
def Fits : Constant → Prop
  | .utf8 bytes => bytes.length < 65536
  | _ => True

private theorem accepts_pair (make : UInt16 → UInt16 → Constant) :
    Accepts (do let first ← word16; let second ← word16; return make first second)
      fun bytes constant => ∃ first second,
        bytes = Word.bytes16 first ++ Word.bytes16 second ∧ constant = make first second :=
  (accepts_word16.bind fun first => accepts_word16.map (make first)).congr fun bytes constant => by
    constructor
    · rintro ⟨_, first, _, rfl, rfl, second, rfl, rfl⟩
      exact ⟨first, second, rfl, rfl⟩
    · rintro ⟨first, second, rfl, rfl⟩
      exact ⟨_, first, _, rfl, rfl, second, rfl, rfl⟩

/-- A text is its length and its bytes. -/
private theorem accepts_text :
    Accepts (do let length ← word16; return utf8 (← take length.toNat))
      fun bytes constant => ∃ text : Bytes, text.length < 65536 ∧
        bytes = Word.count16 text.length ++ text ∧ constant = .utf8 text :=
  (accepts_word16.bind fun length => (accepts_take length.toNat).map utf8).congr
    fun bytes constant => by
      constructor
      · rintro ⟨_, length, _, rfl, rfl, text, ⟨rfl, counted⟩, rfl⟩
        refine ⟨_, ?_, ?_, rfl⟩
        · rw [counted]
          exact length.toNat_lt
        · rw [counted, Word.count16_toNat]
      · rintro ⟨text, room, rfl, rfl⟩
        exact ⟨_, UInt16.ofNat text.length, text, rfl, rfl, text,
          ⟨rfl, (Word.toNat_ofNat16 room).symm⟩, rfl⟩

/-- A method handle is its kind and an index. -/
private theorem accepts_handle :
    Accepts (do let kind ← byte; let reference ← word16; return methodHandle kind reference)
      fun bytes constant => ∃ kind reference,
        bytes = kind :: Word.bytes16 reference ∧ constant = .methodHandle kind reference :=
  (accepts_byte.bind fun kind => accepts_word16.map (methodHandle kind)).congr
    fun bytes constant => by
      constructor
      · rintro ⟨_, kind, _, rfl, rfl, reference, rfl, rfl⟩
        exact ⟨kind, reference, rfl, rfl⟩
      · rintro ⟨kind, reference, rfl, rfl⟩
        exact ⟨_, kind, _, rfl, rfl, reference, rfl, rfl⟩

/-- What stands behind the tag of a constant is read back, whatever the index. -/
private theorem readPayload_payload (index : UInt16) (constant : Constant) (fits : constant.Fits)
    (position : Nat) (rest : Bytes) :
    readPayload index constant.tag ⟨position, constant.payload ++ rest⟩ =
      .ok (constant, ⟨position + constant.payload.length, rest⟩) := by
  cases constant with
  | utf8 text => exact accepts_text.reads ⟨text, fits, rfl, rfl⟩ position rest
  | integer bits => exact (accepts_word32.map integer).reads ⟨bits, rfl, rfl⟩ position rest
  | float bits => exact (accepts_word32.map float).reads ⟨bits, rfl, rfl⟩ position rest
  | long bits => exact (accepts_word64.map long).reads ⟨bits, rfl, rfl⟩ position rest
  | double bits => exact (accepts_word64.map double).reads ⟨bits, rfl, rfl⟩ position rest
  | classInfo name => exact (accepts_word16.map classInfo).reads ⟨name, rfl, rfl⟩ position rest
  | string text => exact (accepts_word16.map string).reads ⟨text, rfl, rfl⟩ position rest
  | fieldRef owner pair => exact (accepts_pair fieldRef).reads ⟨_, _, rfl, rfl⟩ position rest
  | methodRef owner pair => exact (accepts_pair methodRef).reads ⟨_, _, rfl, rfl⟩ position rest
  | interfaceMethodRef owner pair =>
      exact (accepts_pair interfaceMethodRef).reads ⟨_, _, rfl, rfl⟩ position rest
  | nameAndType name descriptor =>
      exact (accepts_pair nameAndType).reads ⟨_, _, rfl, rfl⟩ position rest
  | methodHandle kind reference => exact accepts_handle.reads ⟨_, _, rfl, rfl⟩ position rest
  | methodType descriptor =>
      exact (accepts_word16.map methodType).reads ⟨descriptor, rfl, rfl⟩ position rest
  | dynamic bootstrap pair => exact (accepts_pair dynamic).reads ⟨_, _, rfl, rfl⟩ position rest
  | invokeDynamic bootstrap pair =>
      exact (accepts_pair invokeDynamic).reads ⟨_, _, rfl, rfl⟩ position rest
  | moduleInfo name => exact (accepts_word16.map moduleInfo).reads ⟨name, rfl, rfl⟩ position rest
  | packageInfo name => exact (accepts_word16.map packageInfo).reads ⟨name, rfl, rfl⟩ position rest

/-- What is read behind a tag is the written form of a constant with this tag. -/
private theorem payload_of_readPayload {index : UInt16} {tag : UInt8} {constant : Constant}
    {cursor next : Cursor} (success : readPayload index tag cursor = .ok (constant, next)) :
    constant.tag = tag ∧ constant.Fits ∧ cursor.rest = constant.payload ++ next.rest ∧
      next.position = cursor.position + constant.payload.length := by
  have word {make : UInt16 → Constant}
      (success : (do return make (← word16) : Reader Constant) cursor = .ok (constant, next)) :
      ∃ value, constant = make value ∧ cursor.rest = Word.bytes16 value ++ next.rest ∧
        next.position = cursor.position + (Word.bytes16 value).length := by
    obtain ⟨_, ⟨value, rfl, same⟩, rest, position⟩ := (accepts_word16.map make).consumed success
    exact ⟨value, same, rest, position⟩
  have pair {make : UInt16 → UInt16 → Constant}
      (success : (do let first ← word16; let second ← word16; return make first second :
        Reader Constant) cursor = .ok (constant, next)) :
      ∃ first second, constant = make first second ∧
        cursor.rest = (Word.bytes16 first ++ Word.bytes16 second) ++ next.rest ∧
          next.position = cursor.position + (Word.bytes16 first ++ Word.bytes16 second).length := by
    obtain ⟨_, ⟨first, second, rfl, same⟩, rest, position⟩ := (accepts_pair make).consumed success
    exact ⟨first, second, same, rest, position⟩
  unfold readPayload at success
  split at success
  case h_1 =>
      obtain ⟨_, ⟨text, room, rfl, rfl⟩, rest, position⟩ := accepts_text.consumed success
      exact ⟨rfl, room, rest, position⟩
  case h_2 =>
      obtain ⟨_, ⟨bits, rfl, rfl⟩, rest, position⟩ :=
        (accepts_word32.map integer).consumed success
      exact ⟨rfl, trivial, rest, position⟩
  case h_3 =>
      obtain ⟨_, ⟨bits, rfl, rfl⟩, rest, position⟩ := (accepts_word32.map float).consumed success
      exact ⟨rfl, trivial, rest, position⟩
  case h_4 =>
      obtain ⟨_, ⟨bits, rfl, rfl⟩, rest, position⟩ := (accepts_word64.map long).consumed success
      exact ⟨rfl, trivial, rest, position⟩
  case h_5 =>
      obtain ⟨_, ⟨bits, rfl, rfl⟩, rest, position⟩ := (accepts_word64.map double).consumed success
      exact ⟨rfl, trivial, rest, position⟩
  case h_12 =>
      obtain ⟨_, ⟨kind, reference, rfl, rfl⟩, rest, position⟩ := accepts_handle.consumed success
      exact ⟨rfl, trivial, rest, position⟩
  case h_18 => cases success
  case h_6 | h_7 | h_13 | h_16 | h_17 =>
      obtain ⟨value, rfl, rest, position⟩ := word success
      exact ⟨rfl, trivial, rest, position⟩
  all_goals
    obtain ⟨first, second, rfl, rest, position⟩ := pair success
    exact ⟨rfl, trivial, rest, position⟩

/-- A constant is read exactly from its written form. -/
theorem accepts_read (index : UInt16) : Accepts (read index) (Written bytes Fits) where
  reads := by
    rintro written constant ⟨rfl, fits⟩ position rest
    rw [read, bind_eq_ok_iff]
    refine ⟨constant.tag, ⟨position + 1, constant.payload ++ rest⟩, rfl, ?_⟩
    rw [readPayload_payload index constant fits, bytes, List.length_cons]
    congr 3
    omega
  consumed := by
    intro cursor constant next success
    obtain ⟨tag, between, firstSuccess, secondSuccess⟩ := bind_eq_ok_iff.mp success
    obtain ⟨front, rfl, frontRest, frontPosition⟩ := accepts_byte.consumed firstSuccess
    obtain ⟨rfl, fits, rest, position⟩ := payload_of_readPayload secondSuccess
    refine ⟨constant.bytes, ⟨rfl, fits⟩, ?_, ?_⟩
    · rw [frontRest, rest, bytes, List.cons_append, List.cons_append, List.nil_append]
    · rw [position, frontPosition, bytes]
      simp only [List.length_cons, List.length_nil]
      omega

end Constant

namespace ConstantPool

open Reader

/-- The slots of a row of constants. -/
def slotsOfAll (constants : List Constant) : List (Option Constant) :=
  constants.flatMap slotsOf

/-- A pool as a class file can hold it: an empty first slot, behind it a row of
constants with the slots that they take, and no more slots than can be counted. -/
structure WellFormed (pool : ConstantPool) : Prop where
  laidOut : ∃ constants, pool.slots.toList = none :: slotsOfAll constants
  count_le : pool.count ≤ maxSlots

/-- Every text of the pool is short enough to be written. -/
def TextsFit (pool : ConstantPool) : Prop :=
  ∀ constant, some constant ∈ pool.slots.toList → constant.Fits

/-- The bytes that a pool is read from: its written form, and for the empty pool
also a count of 0. -/
def SpelledBy (bytes : Bytes) (pool : ConstantPool) : Prop :=
  pool.WellFormed ∧ pool.TextsFit ∧ (bytes = pool.bytes ∨ pool = empty ∧ bytes = Word.count16 0)

theorem count_eq_length (pool : ConstantPool) : pool.count = pool.slots.toList.length :=
  Array.length_toList.symm

@[simp]
theorem slotsOfAll_nil : slotsOfAll [] = [] := rfl

theorem slotsOfAll_cons (constant : Constant) (constants : List Constant) :
    slotsOfAll (constant :: constants) = slotsOf constant ++ slotsOfAll constants :=
  List.flatMap_cons

theorem slotsOfAll_append (constants later : List Constant) :
    slotsOfAll (constants ++ later) = slotsOfAll constants ++ slotsOfAll later :=
  List.flatMap_append

theorem length_slotsOf_pos (constant : Constant) : 0 < (slotsOf constant).length := by
  unfold slotsOf
  split <;> simp

theorem some_mem_slotsOf {constant other : Constant} :
    some other ∈ slotsOf constant ↔ other = constant := by
  unfold slotsOf
  split <;> simp

theorem some_mem_slotsOfAll {constant : Constant} {constants : List Constant} :
    some constant ∈ slotsOfAll constants ↔ constant ∈ constants := by
  simp [slotsOfAll, some_mem_slotsOf]

/-- The bytes of the slots of a row of constants are the bytes of the constants. -/
theorem flatMap_slotBytes (constants : List Constant) :
    (slotsOfAll constants).flatMap slotBytes = constants.flatMap Constant.bytes := by
  induction constants with
  | nil => rfl
  | cons constant constants ih =>
      rw [slotsOfAll_cons, List.flatMap_append, ih, List.flatMap_cons]
      unfold slotsOf
      split <;> simp [slotBytes]

theorem textsFit_iff {pool : ConstantPool} {constants : List Constant}
    (laidOut : pool.slots.toList = none :: slotsOfAll constants) :
    pool.TextsFit ↔ ∀ constant ∈ constants, constant.Fits := by
  simp [TextsFit, laidOut, some_mem_slotsOfAll]

theorem bytes_eq {pool : ConstantPool} {constants : List Constant}
    (laidOut : pool.slots.toList = none :: slotsOfAll constants) :
    pool.bytes = Word.count16 pool.count ++ constants.flatMap Constant.bytes := by
  rw [bytes, laidOut, List.flatMap_cons, flatMap_slotBytes]
  rfl

/-- Constants are read back behind any slots, until the count is reached. -/
private theorem readSlotsOnto_bytes (count : Nat) (constants : List Constant)
    (fits : ∀ constant ∈ constants, constant.Fits) (slots : Array (Option Constant))
    (counted : slots.size + (slotsOfAll constants).length = count) (position : Nat) (rest : Bytes) :
    readSlotsOnto count slots ⟨position, constants.flatMap Constant.bytes ++ rest⟩ =
      .ok (slots ++ (slotsOfAll constants).toArray,
        ⟨position + (constants.flatMap Constant.bytes).length, rest⟩) := by
  induction constants generalizing slots position with
  | nil =>
      rw [readSlotsOnto, if_neg]
      · simp
      · simp only [slotsOfAll_nil, List.length_nil] at counted
        omega
  | cons constant constants ih =>
      have takes := length_slotsOf_pos constant
      rw [slotsOfAll_cons, List.length_append] at counted
      have fitsLater : ∀ later ∈ constants, later.Fits :=
        fun later member => fits later (List.mem_cons_of_mem constant member)
      have next := (Constant.accepts_read (UInt16.ofNat slots.size)).reads
        ⟨rfl, fits constant List.mem_cons_self⟩ position
        (constants.flatMap Constant.bytes ++ rest)
      rw [readSlotsOnto, if_pos (by omega), List.flatMap_cons, List.append_assoc, next]
      dsimp only
      by_cases wide : constant.isWide
      · have slotsEq : slotsOf constant = [some constant, none] := if_pos wide
        rw [slotsEq, List.length_cons, List.length_singleton] at counted
        rw [if_pos wide, if_pos (by omega), ih fitsLater _ (by simp only [Array.size_push]; omega)]
        simp [slotsOfAll_cons, slotsEq, Nat.add_assoc]
      · have slotsEq : slotsOf constant = [some constant] := if_neg wide
        rw [slotsEq, List.length_singleton] at counted
        rw [if_neg wide, ih fitsLater _ (by simp only [Array.size_push]; omega)]
        simp [slotsOfAll_cons, slotsEq, Nat.add_assoc]

/-- Between the two cursors stands a row of constants that takes the slots from the
first run up to the last, which are as many as were counted. -/
private def Fills (count : Nat) (slots final : Array (Option Constant)) (cursor next : Cursor) :
    Prop :=
  ∃ constants, (∀ constant ∈ constants, constant.Fits) ∧
    final.toList = slots.toList ++ slotsOfAll constants ∧ final.size = count ∧
      cursor.rest = constants.flatMap Constant.bytes ++ next.rest ∧
        next.position = cursor.position + (constants.flatMap Constant.bytes).length

private theorem Fills.cons {count : Nat} {constant : Constant} {index : UInt16}
    {slots more final : Array (Option Constant)} {cursor between next : Cursor}
    (read : Constant.read index cursor = .ok (constant, between))
    (more_eq : more.toList = slots.toList ++ slotsOf constant)
    (later : Fills count more final between next) : Fills count slots final cursor next := by
  obtain ⟨front, ⟨rfl, fit⟩, frontRest, frontPosition⟩ :=
    (Constant.accepts_read index).consumed read
  obtain ⟨constants, fits, same, full, rest, position⟩ := later
  refine ⟨constant :: constants, ?_, ?_, full, ?_, ?_⟩
  · rintro other (_ | ⟨_, member⟩)
    · exact fit
    · exact fits other member
  · rw [same, more_eq, slotsOfAll_cons, List.append_assoc]
  · rw [frontRest, rest, List.flatMap_cons, List.append_assoc]
  · rw [position, frontPosition, List.flatMap_cons, List.length_append, Nat.add_assoc]

/-- Whatever slots are read come from a row of constants that fill them up to the
count. -/
private theorem fills_of_readSlotsOnto {count : Nat} {slots final : Array (Option Constant)}
    {cursor next : Cursor} (success : readSlotsOnto count slots cursor = .ok (final, next))
    (small : slots.size ≤ count) : Fills count slots final cursor next := by
  fun_induction readSlotsOnto count slots cursor with
  | case1 | case3 => cases success
  | case2 slots cursor room constant between read wide roomForTwo ih =>
      have slotsEq : slotsOf constant = [some constant, none] := if_pos wide
      exact .cons read (by simp [slotsEq]) (ih success (by simp only [Array.size_push]; omega))
  | case4 slots cursor room constant between read narrow ih =>
      have slotsEq : slotsOf constant = [some constant] := if_neg narrow
      exact .cons read (by simp [slotsEq]) (ih success (by simp only [Array.size_push]; omega))
  | case5 slots cursor full =>
      cases success
      exact ⟨[], by simp, by simp, by omega, rfl, rfl⟩

/-- A pool is read exactly from its written form, or from a count of 0. -/
theorem accepts_read : Accepts read SpelledBy where
  reads := by
    rintro written pool ⟨⟨⟨constants, laidOut⟩, small⟩, fits, same⟩ position rest
    have slots_eq : empty.slots ++ (slotsOfAll constants).toArray = pool.slots := by
      apply Array.toList_inj.mp
      rw [laidOut]
      simp [empty]
    have counted := pool.count_eq_length
    rw [laidOut, List.length_cons] at counted
    rw [read, bind_eq_ok_iff]
    rcases same with rfl | ⟨rfl, rfl⟩
    · have room : pool.count < 65536 := Nat.lt_succ_of_le small
      refine ⟨UInt16.ofNat pool.count, ⟨position + 2, constants.flatMap Constant.bytes ++ rest⟩,
        ?_, ?_⟩
      · rw [bytes_eq laidOut, List.append_assoc]
        exact accepts_word16.reads rfl position _
      · rw [bind_eq_ok_iff]
        refine ⟨pool.slots, _, ?_, rfl⟩
        rw [Word.toNat_ofNat16 room, readSlotsOnto_bytes pool.count constants
          ((textsFit_iff laidOut).mp fits) empty.slots (by simp [empty]; omega), slots_eq,
          bytes_eq laidOut, List.length_append, Word.length_count16, Nat.add_assoc]
    · refine ⟨0, ⟨position + 2, rest⟩, accepts_word16.reads rfl position rest, ?_⟩
      rw [bind_eq_ok_iff]
      refine ⟨empty.slots, ⟨position + 2, rest⟩, ?_, rfl⟩
      rw [readSlotsOnto, if_neg (by simp)]
  consumed := by
    intro cursor pool next success
    obtain ⟨count, between, countRead, success⟩ := bind_eq_ok_iff.mp success
    obtain ⟨front, rfl, frontRest, frontPosition⟩ := accepts_word16.consumed countRead
    obtain ⟨slots, last, slotsRead, done⟩ := bind_eq_ok_iff.mp success
    cases done
    by_cases counted : count.toNat = 0
    · have count_eq : count = 0 := UInt16.toNat.inj counted
      subst count_eq
      rw [readSlotsOnto, if_neg (by simp)] at slotsRead
      cases slotsRead
      exact ⟨Word.count16 0, ⟨⟨⟨[], rfl⟩, by decide⟩, by simp [TextsFit, empty], .inr ⟨rfl, rfl⟩⟩,
        frontRest, frontPosition⟩
    · obtain ⟨constants, fits, laidOut, full, rest, position⟩ :=
        fills_of_readSlotsOnto slotsRead (by simp [empty]; omega)
      have shape : (ConstantPool.mk slots).slots.toList = none :: slotsOfAll constants := laidOut
      have count_eq : (ConstantPool.mk slots).count = count.toNat := full
      have bound := count.toNat_lt
      refine ⟨(ConstantPool.mk slots).bytes, ⟨⟨⟨constants, shape⟩, ?_⟩,
        (textsFit_iff shape).mpr fits, .inl rfl⟩, ?_, ?_⟩
      · rw [count_eq, maxSlots]
        omega
      · rw [frontRest, rest, bytes_eq shape, count_eq, Word.count16_toNat, List.append_assoc]
      · rw [position, frontPosition, bytes_eq shape, count_eq, Word.count16_toNat,
          List.length_append, Nat.add_assoc]

end ConstantPool

end Lookout
