/-
# Room for texts

How many slots a pool will have once certain texts are in it can be told beforehand: it is
what it has, and one more for each of the texts that no entry spells. Interning any of the
texts does not change that number, whether they are in the pool, are asked for twice, or
are new. So a row of texts can be interned exactly if the number is within the limit.
-/

import Lookout.Proofs.ConstantPool.Interning
import Mathlib.Data.Finset.Card

namespace Lookout

namespace ConstantPool

/-- Some entry is the prescribed encoding of the text. -/
def Spells (pool : ConstantPool) (text : String) : Prop :=
  some (Constant.utf8 (Text.ModifiedUtf8.encode text)) ∈ pool.slots.toList

instance (pool : ConstantPool) (text : String) : Decidable (pool.Spells text) :=
  inferInstanceAs (Decidable (_ ∈ _))

/-- How many slots the pool has once all of the texts are in it. -/
def countWith (pool : ConstantPool) (texts : Finset String) : Nat :=
  pool.count + (texts.filter fun text => ¬ pool.Spells text).card

variable {pool later : ConstantPool} {texts : Finset String} {text : String}

theorem countWith_of_spells (spells : ∀ text ∈ texts, pool.Spells text) :
    pool.countWith texts = pool.count := by
  rw [countWith, Finset.filter_eq_empty_iff.mpr fun text member => not_not.mpr (spells text member),
    Finset.card_empty, Nat.add_zero]

theorem lt_countWith (member : text ∈ texts) (missing : ¬ pool.Spells text) :
    pool.count < pool.countWith texts := by
  have unspelled : text ∈ texts.filter fun text => ¬ pool.Spells text :=
    Finset.mem_filter.mpr ⟨member, missing⟩
  have some := Finset.card_pos.mpr ⟨text, unspelled⟩
  rw [countWith]
  omega

/-- More texts need no fewer slots. -/
theorem countWith_mono {more : Finset String} (inside : texts ⊆ more) :
    pool.countWith texts ≤ pool.countWith more :=
  Nat.add_le_add_left (Finset.card_le_card (Finset.filter_subset_filter _ inside)) pool.count

theorem spells_of_utf8Matches {index : UInt16} (same : pool.utf8Matches index text = true) :
    pool.Spells text :=
  mem_slots_of_get (utf8Matches_iff.mp same)

theorem GrowsTo.spells (grows : pool.GrowsTo later) (spells : pool.Spells text) :
    later.Spells text := by
  obtain ⟨added, slots, -⟩ := grows
  rw [Spells, slots]
  exact List.mem_append_left added spells

end ConstantPool

namespace Interning

open ConstantPool

variable {pool later : ConstantPool} {texts : Finset String} {text : String}

/-- A text is found, or takes the slot behind the last one, or there is no room for it. -/
theorem utf8_cases (text : String) (pool : ConstantPool) :
    (pool.Spells text ∧ ∃ index, utf8 text pool = (.ok index, pool)) ∨
      (¬ pool.Spells text ∧ ∃ index later, utf8 text pool = (.ok index, later) ∧
        later.count = pool.count + 1 ∧ later.count ≤ maxSlots ∧
        ∀ other, later.Spells other ↔ pool.Spells other ∨ other = text) ∨
      (¬ pool.Spells text ∧ maxSlots ≤ pool.count ∧
        utf8 text pool = (.error .poolOverflow, pool)) := by
  rcases pool.intern_cases (.utf8 (Text.ModifiedUtf8.encode text)) with
    ⟨index, found, interned⟩ | ⟨absent, later, slots, small, interned⟩ | ⟨absent, full, interned⟩
  · refine .inl ⟨?_, index, interned⟩
    by_contra absent
    rw [indexOf?_eq_none_iff.mpr absent] at found
    cases found
  · have one : later.slots.toList = pool.slots.toList ++
        [some (.utf8 (Text.ModifiedUtf8.encode text))] := slots
    refine .inr (.inl ⟨absent, _, later, interned, ?_, small, fun other => ?_⟩)
    · rw [count_eq_length, one, List.length_append, ← count_eq_length, List.length_singleton]
    · rw [Spells, one, List.mem_append, List.mem_singleton, Option.some.injEq, Constant.utf8.injEq]
      exact or_congr_right Text.ModifiedUtf8.encode_injective.eq_iff
  · have narrow : (slotsOf (.utf8 (Text.ModifiedUtf8.encode text))).length = 1 := rfl
    exact .inr (.inr ⟨absent, by omega, interned⟩)

/-- A text that was asked for is in the pool, and the texts to come take the room that was
set aside for them. -/
theorem countWith_utf8 {index : UInt16} (success : utf8 text pool = (.ok index, later)) :
    later.Spells text ∧ (pool.count ≤ maxSlots → later.count ≤ maxSlots) ∧
      ∀ {texts}, text ∈ texts → later.countWith texts = pool.countWith texts := by
  rcases utf8_cases text pool with
    ⟨spells, _, found⟩ | ⟨missing, _, _, added, count, small, spells⟩ | ⟨_, _, failed⟩
  · cases found.symm.trans success
    exact ⟨spells, id, fun _ => rfl⟩
  · cases added.symm.trans success
    refine ⟨(spells text).mpr (.inr rfl), fun _ => small, fun {texts} member => ?_⟩
    have left : texts.filter (fun text => ¬ later.Spells text) =
        (texts.filter fun text => ¬ pool.Spells text).erase text := by
      ext other
      simp only [Finset.mem_filter, Finset.mem_erase, spells, not_or]
      tauto
    have unspelled : text ∈ texts.filter fun text => ¬ pool.Spells text :=
      Finset.mem_filter.mpr ⟨member, missing⟩
    have fewer := Finset.card_erase_add_one unspelled
    rw [countWith, countWith, left, count]
    omega
  · cases failed.symm.trans success

/-- Only where the slots are used up is a text refused, and the pool stays as it is. -/
theorem utf8_eq_error {fault : ClassFileError} (failed : utf8 text pool = (.error fault, later)) :
    fault = .poolOverflow ∧ later = pool ∧
      ∀ {texts}, text ∈ texts → maxSlots < pool.countWith texts := by
  rcases utf8_cases text pool with
    ⟨_, _, found⟩ | ⟨_, _, _, added, _⟩ | ⟨missing, full, refused⟩
  · cases found.symm.trans failed
  · cases added.symm.trans failed
  · cases refused.symm.trans failed
    exact ⟨rfl, rfl, fun member => Nat.lt_of_le_of_lt full (lt_countWith member missing)⟩

/-- One text is interned exactly if it is there or has room. -/
theorem exists_utf8_iff (small : pool.count ≤ maxSlots) :
    (∃ index later, utf8 text pool = (.ok index, later)) ↔ pool.countWith {text} ≤ maxSlots := by
  have inside : text ∈ ({text} : Finset String) := Finset.mem_singleton_self text
  constructor
  · rintro ⟨index, later, success⟩
    obtain ⟨spells, smallLater, sameCount⟩ := countWith_utf8 success
    rw [← sameCount inside, countWith_of_spells (by simpa using spells)]
    exact smallLater small
  · intro room
    rcases result : utf8 text pool with ⟨fault | index, later⟩
    · exact absurd ((utf8_eq_error result).2.2 inside) (Nat.not_lt.mpr room)
    · exact ⟨index, later, rfl⟩

end Interning

end Lookout
