/-
# Assembling for the second time

Assembly settles as interning does. Done again on a pool that has grown from the one that
it left, it finds its constants where it put them, and comes to the same code.
-/

import Lookout.Fragment.Assembly
import Lookout.Proofs.ConstantPool.Settled

namespace Lookout

namespace Assembly

open Effect

theorem interned_eq_ok_iff {α : Type} {action : Interning α} {assembler next : Assembler}
    {value : α} :
    interned action assembler = (.ok value, next) ↔
      ∃ pool, action assembler.pool = (.ok value, pool) ∧ next = { assembler with pool } := by
  unfold interned
  obtain ⟨result, pool⟩ := action assembler.pool
  constructor
  · intro success
    cases success
    exact ⟨pool, rfl, rfl⟩
  · rintro ⟨_, same, rfl⟩
    cases same
    rfl

theorem ofExcept_eq_ok_iff {α : Type} {result : Except ClassFileError α}
    {assembler next : Assembler} {value : α} :
    ofExcept result assembler = (.ok value, next) ↔ result = .ok value ∧ next = assembler := by
  constructor
  · intro success
    cases success
    exact ⟨rfl, rfl⟩
  · rintro ⟨rfl, rfl⟩
    rfl

theorem pop_eq_ok_iff {slots : UInt16} {mnemonic : String} {assembler next : Assembler} :
    pop slots mnemonic assembler = (.ok (), next) ↔
      slots ≤ assembler.depth ∧ next = { assembler with depth := assembler.depth - slots } := by
  unfold pop
  by_cases deep : slots ≤ assembler.depth
  · rw [if_pos deep]
    constructor
    · intro success
      cases success
      exact ⟨deep, rfl⟩
    · rintro ⟨-, rfl⟩
      rfl
  · rw [if_neg deep]
    constructor
    · intro impossible
      cases impossible
    · rintro ⟨impossible, -⟩
      exact absurd impossible deep

/-- Assembling the same again comes to the same code. -/
abbrev Settles {α : Type} (action : Assembly α) : Prop :=
  Effect.Settles Assembler.pool (fun last assembler => { assembler with pool := last }) action

theorem settles_interned {α : Type} {action : Interning α} (settles : Interning.Settles action) :
    Settles (interned action) where
  grows success := by
    obtain ⟨pool, done, rfl⟩ := interned_eq_ok_iff.mp success
    exact settles.grows done
  again success last beyond := by
    obtain ⟨pool, done, rfl⟩ := interned_eq_ok_iff.mp success
    exact interned_eq_ok_iff.mpr ⟨last, settles.again done beyond, rfl⟩

theorem settles_ofExcept {α : Type} (result : Except ClassFileError α) :
    Settles (ofExcept result) where
  grows success := by
    obtain ⟨-, rfl⟩ := ofExcept_eq_ok_iff.mp success
    exact .refl _
  again success _ _ := by
    obtain ⟨same, rfl⟩ := ofExcept_eq_ok_iff.mp success
    exact ofExcept_eq_ok_iff.mpr ⟨same, rfl⟩

theorem settles_pop (slots : UInt16) (mnemonic : String) : Settles (pop slots mnemonic) where
  grows success := by
    obtain ⟨-, rfl⟩ := pop_eq_ok_iff.mp success
    exact .refl _
  again success _ _ := by
    obtain ⟨deep, rfl⟩ := pop_eq_ok_iff.mp success
    exact pop_eq_ok_iff.mpr ⟨deep, rfl⟩

/-- Appending an instruction does not look at the pool. -/
theorem settles_emit (bytes : Bytes) (slots : UInt16) :
    Settles (modify fun assembler => (assembler.emit bytes).push slots) where
  grows success := by
    cases success
    exact .refl _
  again success _ _ := by
    cases success
    rfl

theorem settles_aload (index : UInt16) : Settles (aload index) where
  grows success := by
    cases success
    exact .refl _
  again success _ _ := by
    cases success
    rfl

theorem settles_ldc (text : String) : Settles (ldc text) :=
  (settles_interned (Interning.settles_string text)).bind fun _ => settles_emit _ _

theorem settles_getstatic (field : MemberReference) : Settles (getstatic field) :=
  (settles_ofExcept _).bind fun _ =>
    (settles_interned (Interning.settles_reference _ field)).bind fun _ => settles_emit _ _

theorem settles_getfield (field : MemberReference) : Settles (getfield field) :=
  (settles_ofExcept _).bind fun _ =>
    (settles_interned (Interning.settles_reference _ field)).bind fun _ =>
      (settles_pop _ _).bind fun _ => settles_emit _ _

theorem settles_invokestatic (method : MemberReference) : Settles (invokestatic method) :=
  (settles_ofExcept _).bind fun _ =>
    (settles_interned (Interning.settles_reference _ method)).bind fun _ =>
      (settles_pop _ _).bind fun _ => settles_emit _ _

theorem settles_invokevirtual (method : MemberReference) : Settles (invokevirtual method) :=
  (settles_ofExcept _).bind fun _ =>
    (settles_interned (Interning.settles_reference _ method)).bind fun _ =>
      (settles_pop _ _).bind fun _ => settles_emit _ _

end Assembly

end Lookout
