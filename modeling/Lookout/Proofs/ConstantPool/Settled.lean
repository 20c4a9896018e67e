/-
# Interning for the second time

An action that interns constants and succeeds has put all of them into the pool. If
it is done again on that pool, or on any pool that has grown from it, it finds every
constant at the index where it was put, comes to the same result, and leaves the pool
as it is. This holds of interning one constant, and of sequences of such actions.
-/

import Lookout.Proofs.ConstantPool.Growth

namespace Lookout

namespace ConstantPool

theorem indexOf?_eq_findIdx? (pool : ConstantPool) (constant : Constant) :
    pool.indexOf? constant =
      (pool.slots.toList.findIdx? (· == some constant)).map UInt16.ofNat := by
  rw [indexOf?, List.findIdx?_toArray]

/-- A constant is found where it was found before, because nothing is put in front of it. -/
theorem GrowsTo.indexOf?_eq_some {earlier later : ConstantPool} (grows : earlier.GrowsTo later)
    {constant : Constant} {index : UInt16} (found : earlier.indexOf? constant = some index) :
    later.indexOf? constant = some index := by
  obtain ⟨added, slots, -⟩ := grows
  rw [indexOf?_eq_findIdx?, Option.map_eq_some_iff] at found
  obtain ⟨position, first, rfl⟩ := found
  rw [indexOf?_eq_findIdx?, slots, List.findIdx?_append, first]
  rfl

theorem indexOf?_of_intern {pool later : ConstantPool} {constant : Constant} {index : UInt16}
    (success : pool.intern constant = (.ok index, later)) :
    later.indexOf? constant = some index := by
  rcases pool.intern_cases constant with
    ⟨_, found, same⟩ | ⟨absent, grown, slots, -, same⟩ | ⟨_, _, same⟩
  · rw [same] at success
    cases success
    exact found
  · rw [same] at success
    cases success
    have notBefore : pool.slots.toList.findIdx? (· == some constant) = none := by
      rw [List.findIdx?_eq_none_iff]
      intro slot old
      exact beq_eq_false_iff_ne.mpr fun isConstant => absent (isConstant ▸ old)
    have first : (slotsOf constant).findIdx? (· == some constant) = some 0 := by
      unfold slotsOf
      split <;> simp [List.findIdx?_cons]
    rw [indexOf?_eq_findIdx?, slots, List.findIdx?_append, notBefore, first, count_eq_length]
    simp
  · rw [same] at success
    cases success

/-- Interning a constant again finds it. -/
theorem intern_of_intern {pool later last : ConstantPool} {constant : Constant} {index : UInt16}
    (success : pool.intern constant = (.ok index, later)) (grows : later.GrowsTo last) :
    last.intern constant = (.ok index, last) := by
  rw [intern, grows.indexOf?_eq_some (indexOf?_of_intern success)]

end ConstantPool

namespace Effect

variable {ε σ α β : Type}

/-- Whenever the action succeeds, the pool in the state has grown, and on any pool that
grows from it the action succeeds again, with the same value and the same effect on the
rest of the state, and leaves that pool as it is. The state with another pool in place is
given by `place`. -/
structure Settles (pool : σ → ConstantPool) (place : ConstantPool → σ → σ)
    (action : ExceptT ε (StateM σ) α) : Prop where
  grows : ∀ {state next value}, action state = (.ok value, next) → (pool state).GrowsTo (pool next)
  again : ∀ {state next value}, action state = (.ok value, next) →
    ∀ {last}, (pool next).GrowsTo last → action (place last state) = (.ok value, place last next)

variable {pool : σ → ConstantPool} {place : ConstantPool → σ → σ}

theorem Settles.bind {first : ExceptT ε (StateM σ) α} {next : α → ExceptT ε (StateM σ) β}
    (settles : Settles pool place first) (settlesNext : ∀ value, Settles pool place (next value)) :
    Settles pool place (first >>= next) where
  grows success := by
    obtain ⟨_, _, firstSuccess, nextSuccess⟩ := bind_eq_ok_iff.mp success
    exact (settles.grows firstSuccess).trans ((settlesNext _).grows nextSuccess)
  again success _ beyond := by
    obtain ⟨_, between, firstSuccess, nextSuccess⟩ := bind_eq_ok_iff.mp success
    have growsNext := (settlesNext _).grows nextSuccess
    exact bind_eq_ok_iff.mpr ⟨_, place _ between,
      settles.again firstSuccess (growsNext.trans beyond), (settlesNext _).again nextSuccess beyond⟩

theorem settles_pure (value : α) : Settles pool place (pure value : ExceptT ε (StateM σ) α) where
  grows success := by
    cases success
    exact .refl _
  again success _ _ := by
    cases success
    rfl

end Effect

namespace Interning

open Effect ConstantPool

/-- Interning the same again finds it. -/
abbrev Settles {α : Type} (action : Interning α) : Prop :=
  Effect.Settles id (fun last _ => last) action

theorem settles_constant (item : Constant) : Settles (constant item) where
  grows {pool _ _} success := by
    have grows := growsTo_intern pool item
    rwa [show pool.intern item = _ from success] at grows
  again success _ beyond := intern_of_intern success beyond

theorem settles_utf8 (text : String) : Settles (utf8 text) := settles_constant _

theorem settles_classInfo (name : String) : Settles (classInfo name) :=
  (settles_utf8 name).bind fun _ => settles_constant _

theorem settles_string (text : String) : Settles (string text) :=
  (settles_utf8 text).bind fun _ => settles_constant _

theorem settles_nameAndType (name descriptor : String) : Settles (nameAndType name descriptor) :=
  (settles_utf8 name).bind fun _ => (settles_utf8 descriptor).bind fun _ => settles_constant _

theorem settles_reference (make : UInt16 → UInt16 → Constant) (member : MemberReference) :
    Settles (reference make member) :=
  (settles_classInfo member.owner).bind fun _ =>
    (settles_nameAndType member.name member.descriptor).bind fun _ => settles_constant _

end Interning

end Lookout
