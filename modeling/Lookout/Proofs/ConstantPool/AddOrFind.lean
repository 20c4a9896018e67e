/-
# What is missing is added, the rest is found

A request comes down to a row of constants, of which the later ones refer to the earlier
ones by index. Some of them may be in the pool, and some may be the same. Without a limit
on slots it is plain which of them are missing: each constant is looked for in the pool and
among those that were missing before it. A request that is served from a pool adds exactly
these, in this order. If they have room it is answered, and if they have not it fails when
the pool is full.
-/

import Lookout.Proofs.ConstantPool.Reachable
import Lookout.Proofs.ConstantPool.Settled

namespace Lookout

namespace InternRequest

/-! ### The constants of a request -/

section TakeApart

variable {m : Type → Type} [Monad m] (place : Constant → m UInt16)

/-- Place a text. -/
def placeText (text : String) : m UInt16 := place (.utf8 (Text.ModifiedUtf8.encode text))

/-- Place a class behind its name. -/
def placeClass (name : String) : m UInt16 := do
  let name ← placeText place name
  place (.classInfo name)

/-- Place a pair of name and descriptor behind these. -/
def placePair (name descriptor : String) : m UInt16 := do
  let name ← placeText place name
  let descriptor ← placeText place descriptor
  place (.nameAndType name descriptor)

/-- Place a reference behind its class and its pair of name and descriptor. -/
def placeReference (make : UInt16 → UInt16 → Constant) (member : MemberReference) : m UInt16 := do
  let owner ← placeClass place member.owner
  let pair ← placePair place member.name member.descriptor
  place (make owner pair)

/-- Place the constants that a request comes down to, one after the other. What it means to
place a constant is left open, save that it yields the index by which others refer to it. -/
def takeApart : InternRequest → m UInt16
  | .utf8 text => placeText place text
  | .classInfo name => placeClass place name
  | .string text => do
    let text ← placeText place text
    place (.string text)
  | .nameAndType name descriptor => placePair place name descriptor
  | .fieldRef member => placeReference place .fieldRef member
  | .methodRef member => placeReference place .methodRef member
  | .interfaceMethodRef member => placeReference place .interfaceMethodRef member

end TakeApart

/-- To serve a request is to intern its constants one after the other. -/
theorem serve_eq_takeApart (request : InternRequest) :
    request.serve = request.takeApart Interning.constant := by
  cases request <;> rfl

end InternRequest

namespace ConstantPool

/-- The pool with these constants behind its slots, whether they have room or not. -/
def followedBy (pool : ConstantPool) (added : List Constant) : ConstantPool :=
  ⟨pool.slots ++ (added.map some).toArray⟩

/-- Look for a constant in the pool and among those that are missing so far. If it is in
neither it is missing as well, and its index is the one behind them. -/
def require (pool : ConstantPool) (constant : Constant) : StateM (List Constant) UInt16 :=
  fun missing =>
    let supplied := pool.followedBy missing
    match supplied.indexOf? constant with
    | some index => (index, missing)
    | none => (UInt16.ofNat supplied.count, missing ++ [constant])

/-- The constants that a request would have to add to the pool if there were no limit. -/
def missing (pool : ConstantPool) (request : InternRequest) : List Constant :=
  (request.takeApart pool.require []).2

/-- The constants are not in the pool, and none of them is listed twice. -/
structure Lacks (pool : ConstantPool) (missing : List Constant) : Prop where
  absent : ∀ constant ∈ missing, some constant ∉ pool.slots.toList
  distinct : missing.Nodup

variable {pool : ConstantPool} {missing : List Constant}

theorem followedBy_nil (pool : ConstantPool) : pool.followedBy [] = pool := by
  simp [followedBy]

theorem toList_followedBy (pool : ConstantPool) (added : List Constant) :
    (pool.followedBy added).slots.toList = pool.slots.toList ++ added.map some := by
  simp [followedBy]

theorem count_followedBy (pool : ConstantPool) (added : List Constant) :
    (pool.followedBy added).count = pool.count + added.length := by
  rw [count_eq_length, toList_followedBy, List.length_append, List.length_map, ← count_eq_length]

theorem eq_followedBy {later : ConstantPool} {added : List Constant}
    (slots : later.slots.toList = pool.slots.toList ++ added.map some) :
    later = pool.followedBy added := by
  rcases later with ⟨laterSlots⟩
  rw [followedBy]
  congr 1
  apply Array.toList_inj.mp
  rw [slots]
  simp

/-- A constant that is in neither is missing as well. -/
theorem Lacks.concat (lacks : pool.Lacks missing) {constant : Constant}
    (nowhere : some constant ∉ (pool.followedBy missing).slots.toList) :
    pool.Lacks (missing ++ [constant]) := by
  rw [toList_followedBy, List.mem_append, not_or] at nowhere
  obtain ⟨notInPool, notMissing⟩ := nowhere
  refine ⟨fun other member => ?_, ?_⟩
  · rcases List.mem_append.mp member with earlier | last
    · exact lacks.absent other earlier
    · rwa [List.mem_singleton.mp last]
  · refine List.nodup_append.mpr ⟨lacks.distinct, List.pairwise_singleton _ _, ?_⟩
    rintro other member _ last rfl
    rw [List.mem_singleton.mp last] at member
    exact notMissing (List.mem_map_of_mem member)

/-- A constant is in the pool or among those that are missing, or it joins them. -/
theorem require_cases (pool : ConstantPool) (constant : Constant) (missing : List Constant) :
    (∃ index, (pool.followedBy missing).indexOf? constant = some index ∧
        pool.require constant missing = (index, missing)) ∨
      (some constant ∉ (pool.followedBy missing).slots.toList ∧
        pool.require constant missing =
          (UInt16.ofNat (pool.followedBy missing).count, missing ++ [constant])) := by
  cases found : (pool.followedBy missing).indexOf? constant with
  | some index => exact .inl ⟨index, rfl, by simp only [require, found]⟩
  | none => exact .inr ⟨indexOf?_eq_none_iff.mp found, by simp only [require, found]⟩

/-! ### Interning with and without a limit -/

/-- What an action does within the limit on slots, beside what it would do without. There
it goes on from the constants that are missing so far to all that are missing in the end.
If all of them have room it yields the same value, and if they have not it fails when the
pool is full. -/
structure Supplies {α : Type} (pool : ConstantPool) (action : Interning α)
    (unlimited : StateM (List Constant) α) : Prop where
  goesOn : ∀ missing, missing <+: (unlimited missing).2
  lacks : ∀ {missing}, pool.Lacks missing → pool.Lacks (unlimited missing).2
  answered : ∀ {missing}, pool.count + (unlimited missing).2.length ≤ maxSlots →
    action (pool.followedBy missing) =
      (.ok (unlimited missing).1, pool.followedBy (unlimited missing).2)
  refused : ∀ {missing}, pool.count + missing.length ≤ maxSlots →
    maxSlots < pool.count + (unlimited missing).2.length →
      action (pool.followedBy missing) = (.error .poolOverflow,
        pool.followedBy ((unlimited missing).2.take (maxSlots - pool.count)))

/-- A constant that takes one slot is found, or added where the next one is missing. -/
theorem supplies_constant (pool : ConstantPool) {item : Constant} (narrow : item.isWide = false) :
    Supplies pool (Interning.constant item) (pool.require item) := by
  have slotsEq : slotsOf item = [some item] := if_neg (Bool.eq_false_iff.mp narrow)
  constructor
  · intro missing
    rcases pool.require_cases item missing with ⟨_, -, required⟩ | ⟨-, required⟩
    · exact ⟨[], by rw [required, List.append_nil]⟩
    · exact ⟨[item], by rw [required]⟩
  · intro missing lacks
    rcases pool.require_cases item missing with ⟨_, -, required⟩ | ⟨absent, required⟩ <;>
      rw [required]
    · exact lacks
    · exact lacks.concat absent
  · intro missing room
    show (pool.followedBy missing).intern item = _
    rcases pool.require_cases item missing with ⟨index, found, required⟩ | ⟨absent, required⟩
    · rw [required, intern, found]
    · rw [required, List.length_append, List.length_singleton, ← Nat.add_assoc,
        ← count_followedBy] at room
      rw [required, intern, indexOf?_eq_none_iff.mpr absent, append, slotsEq]
      dsimp only
      rw [List.length_singleton, if_pos room]
      congr 1
      apply eq_followedBy
      simp [toList_followedBy]
  · intro missing small tooMany
    show (pool.followedBy missing).intern item = _
    rcases pool.require_cases item missing with ⟨index, found, required⟩ | ⟨absent, required⟩
    · rw [required] at tooMany
      exact absurd small (Nat.not_le.mpr tooMany)
    · rw [required, List.length_append, List.length_singleton] at tooMany
      have full : ¬ (pool.followedBy missing).count + [some item].length ≤ maxSlots := by
        rw [count_followedBy, List.length_singleton]
        omega
      have filled : maxSlots - pool.count = missing.length := by omega
      rw [required, intern, indexOf?_eq_none_iff.mpr absent, append, slotsEq]
      dsimp only
      rw [if_neg full, filled, List.take_left]

/-- A sequence adds what its parts add. Where its first part finds no room, it goes no
further. -/
theorem Supplies.bind {α β : Type} {first : Interning α} {next : α → Interning β}
    {firstUnlimited : StateM (List Constant) α} {nextUnlimited : α → StateM (List Constant) β}
    (supplies : Supplies pool first firstUnlimited)
    (suppliesNext : ∀ value, Supplies pool (next value) (nextUnlimited value)) :
    Supplies pool (first >>= next) (firstUnlimited >>= nextUnlimited) := by
  have sequence (missing : List Constant) : (firstUnlimited >>= nextUnlimited) missing =
      nextUnlimited (firstUnlimited missing).1 (firstUnlimited missing).2 := rfl
  constructor
  · intro missing
    rw [sequence]
    exact (supplies.goesOn missing).trans ((suppliesNext _).goesOn _)
  · intro missing lacks
    rw [sequence]
    exact (suppliesNext _).lacks (supplies.lacks lacks)
  · intro missing room
    rw [sequence] at room ⊢
    have shorter := ((suppliesNext (firstUnlimited missing).1).goesOn
      (firstUnlimited missing).2).length_le
    rw [Effect.bind_apply, supplies.answered (by omega)]
    exact (suppliesNext _).answered room
  · intro missing small tooMany
    rw [sequence] at tooMany ⊢
    rw [Effect.bind_apply]
    by_cases room : pool.count + (firstUnlimited missing).2.length ≤ maxSlots
    · rw [supplies.answered room]
      exact (suppliesNext _).refused room tooMany
    · rw [supplies.refused small (by omega)]
      obtain ⟨more, all⟩ := (suppliesNext (firstUnlimited missing).1).goesOn
        (firstUnlimited missing).2
      rw [← all, List.take_append_of_le_length (by omega)]

end ConstantPool

/-! ### Requests -/

namespace InternRequest

open ConstantPool

variable {pool : ConstantPool}

theorem supplies_text (pool : ConstantPool) (text : String) :
    Supplies pool (placeText Interning.constant text) (placeText pool.require text) :=
  supplies_constant pool rfl

theorem supplies_class (pool : ConstantPool) (name : String) :
    Supplies pool (placeClass Interning.constant name) (placeClass pool.require name) :=
  (supplies_text pool name).bind fun _ => supplies_constant pool rfl

theorem supplies_pair (pool : ConstantPool) (name descriptor : String) :
    Supplies pool (placePair Interning.constant name descriptor)
      (placePair pool.require name descriptor) :=
  (supplies_text pool name).bind fun _ => (supplies_text pool descriptor).bind fun _ =>
    supplies_constant pool rfl

theorem supplies_reference (pool : ConstantPool) {make : UInt16 → UInt16 → Constant}
    (narrow : ∀ owner pair, (make owner pair).isWide = false) (member : MemberReference) :
    Supplies pool (placeReference Interning.constant make member)
      (placeReference pool.require make member) :=
  (supplies_class pool member.owner).bind fun _ =>
    (supplies_pair pool member.name member.descriptor).bind fun _ =>
      supplies_constant pool (narrow _ _)

/-- No constant of a request takes two slots, so each of them has room as long as one slot
is left. -/
theorem supplies_serve (pool : ConstantPool) (request : InternRequest) :
    Supplies pool request.serve (request.takeApart pool.require) := by
  rw [serve_eq_takeApart]
  cases request with
  | utf8 text => exact supplies_text pool text
  | classInfo name => exact supplies_class pool name
  | string text => exact (supplies_text pool text).bind fun _ => supplies_constant pool rfl
  | nameAndType name descriptor => exact supplies_pair pool name descriptor
  | fieldRef member | methodRef member | interfaceMethodRef member =>
      exact supplies_reference pool (fun _ _ => rfl) member

/-- A request that was answered is answered in the same way when it is made again, and adds
nothing. -/
theorem settles_serve (request : InternRequest) : Interning.Settles request.serve := by
  cases request with
  | utf8 text => exact Interning.settles_utf8 text
  | classInfo name => exact Interning.settles_classInfo name
  | string text => exact Interning.settles_string text
  | nameAndType name descriptor => exact Interning.settles_nameAndType name descriptor
  | fieldRef member | methodRef member | interfaceMethodRef member =>
      exact Interning.settles_reference _ member

/-- The index leads to what is asked for, through all entries on the way. -/
def LeadsTo (pool : ConstantPool) (index : UInt16) : InternRequest → Prop
  | .utf8 text => pool.utf8 index = .ok text
  | .classInfo name => pool.className index = .ok name
  | .string text => pool.stringText? index = some text
  | .nameAndType name descriptor => ∃ nameIndex descriptorIndex,
      pool.get index = .ok (.nameAndType nameIndex descriptorIndex) ∧
        pool.utf8 nameIndex = .ok name ∧ pool.utf8 descriptorIndex = .ok descriptor
  | .fieldRef member => pool.memberReference index = .ok member ∧
      ∃ owner pair, pool.get index = .ok (.fieldRef owner pair)
  | .methodRef member => pool.memberReference index = .ok member ∧
      ∃ owner pair, pool.get index = .ok (.methodRef owner pair)
  | .interfaceMethodRef member => pool.memberReference index = .ok member ∧
      ∃ owner pair, pool.get index = .ok (.interfaceMethodRef owner pair)

theorem leadsTo_of_serve {later : ConstantPool} {index : UInt16} (wellFormed : pool.WellFormed)
    {request : InternRequest} (answered : request.serve pool = (.ok index, later)) :
    LeadsTo later index request := by
  cases request with
  | utf8 text => exact Interning.utf8_of_utf8 wellFormed answered
  | classInfo name => exact Interning.className_of_classInfo wellFormed answered
  | string text => exact Interning.stringText?_of_string wellFormed answered
  | nameAndType name descriptor => exact Interning.get_of_nameAndType wellFormed answered
  | fieldRef member =>
      exact ⟨Interning.memberReference_of_reference wellFormed (.inl rfl) answered,
        Interning.get_of_reference wellFormed answered⟩
  | methodRef member =>
      exact ⟨Interning.memberReference_of_reference wellFormed (.inr (.inl rfl)) answered,
        Interning.get_of_reference wellFormed answered⟩
  | interfaceMethodRef member =>
      exact ⟨Interning.memberReference_of_reference wellFormed (.inr (.inr rfl)) answered,
        Interning.get_of_reference wellFormed answered⟩

/-- What it means that a request adds to the pool what is missing and finds the rest. -/
structure AddsOrFinds (pool : ConstantPool) (request : InternRequest) : Prop where
  kept : ∀ index : UInt16, index.toNat < pool.count →
    (request.serve pool).2.get index = pool.get index
  lacks : pool.Lacks (pool.missing request)
  appended : ∃ added, added <+: pool.missing request ∧
    (request.serve pool).2 = pool.followedBy added
  answered : pool.count + (pool.missing request).length ≤ maxSlots →
    ∃ index later, request.serve pool = (.ok index, later) ∧
      later = pool.followedBy (pool.missing request) ∧ LeadsTo later index request ∧
      request.serve later = (.ok index, later)
  refused : maxSlots < pool.count + (pool.missing request).length →
    (request.serve pool).1 = .error .poolOverflow

/-- Whatever pool has come about and whatever it is asked for, a request leaves all that is
there as it is and adds nothing that is there, not even when it fails. When all that is
missing has room it is answered, with an index that leads to what was asked for and that is
the answer ever after, and otherwise the pool is reported to be full. -/
theorem addsOrFinds_of_reachable (reachable : pool.Reachable) (request : InternRequest) :
    AddsOrFinds pool request := by
  have wellFormed := reachable.wellFormed
  have supplies := supplies_serve pool request
  have answered (room : pool.count + (pool.missing request).length ≤ maxSlots) :
      request.serve pool = (.ok (request.takeApart pool.require []).1,
        pool.followedBy (pool.missing request)) := by
    have served := supplies.answered room
    rwa [followedBy_nil] at served
  have refused (tooMany : maxSlots < pool.count + (pool.missing request).length) :
      request.serve pool = (.error .poolOverflow,
        pool.followedBy ((pool.missing request).take (maxSlots - pool.count))) := by
    have served : request.serve (pool.followedBy []) = _ :=
      supplies.refused wellFormed.count_le tooMany
    rwa [followedBy_nil] at served
  constructor
  case kept => exact fun _ inside => (grown_serve wellFormed request).1.get_eq inside
  case lacks => exact supplies.lacks ⟨nofun, List.nodup_nil⟩
  case appended =>
    rcases Nat.lt_or_ge maxSlots (pool.count + (pool.missing request).length) with
      tooMany | room
    · exact ⟨_, List.take_prefix _ _, by rw [refused tooMany]⟩
    · exact ⟨_, List.prefix_rfl, by rw [answered room]⟩
  case answered =>
    intro room
    have served := answered room
    exact ⟨_, _, served, rfl, leadsTo_of_serve wellFormed served,
      (settles_serve request).again served (.refl _)⟩
  case refused =>
    intro tooMany
    rw [refused tooMany]

/-- A pool of a text and of a class whose name would be behind them. -/
def danglingSample : Bytes := [0, 3, 1, 0, 1, 66, 7, 0, 3]

/-- When the sample is asked for a class of another name, the name is all that is missing.
It takes the index to which the class refers. -/
theorem addsOrFinds_danglingSample :
    ∃ pool next, ConstantPool.read (Cursor.start danglingSample) = .ok (pool, next) ∧
      (pool.missing (.classInfo "A") = [.utf8 [65]] ∧
        ((InternRequest.classInfo "A").serve pool).1 = .ok 2) ∧
      AddsOrFinds pool (.classInfo "A") := by
  obtain ⟨⟨pool, next⟩, success, nameMissing, found⟩ : ∃ result,
      ConstantPool.read (Cursor.start danglingSample) = .ok result ∧
        result.1.missing (.classInfo "A") = [.utf8 [65]] ∧
        ((InternRequest.classInfo "A").serve result.1).1 = .ok 2 := by
    decide +kernel
  exact ⟨pool, next, success, ⟨nameMissing, found⟩, addsOrFinds_of_reachable (.read success) _⟩

end InternRequest

end Lookout
