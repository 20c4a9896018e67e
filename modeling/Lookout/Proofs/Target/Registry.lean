/-
# How a table of targets is made

Rows are added to a table one by one, each at its place in the order of names, and a class
that is there already is refused. So a list of rows makes a table exactly if it names no
class twice, and the table is then the list put in order. Every table in order is made of
some list.
-/

import Lookout.Proofs.Effect
import Lookout.Target.Registry
import Mathlib.Data.List.Induction
import Mathlib.Data.List.Sort
import Mathlib.Data.String.Basic

namespace Lookout

namespace TargetRegistry

/-- The names of the targets, as the table lists them. -/
def names (registry : TargetRegistry) : List String :=
  registry.targets.map fun row => row.1.internalName

/-- The table lists the targets in the order of their names. -/
def Ordered (registry : TargetRegistry) : Prop := registry.names.Pairwise (· < ·)

instance (registry : TargetRegistry) : Decidable registry.Ordered :=
  inferInstanceAs (Decidable (registry.names.Pairwise (· < ·)))

variable {registry next : TargetRegistry} {row : ClassIdentity × TargetSpec}
  {rows : List (ClassIdentity × TargetSpec)} {fault : DuplicateTarget}

theorem ordered_iff_pairwise :
    registry.Ordered ↔
      registry.targets.Pairwise fun first second =>
        first.1.internalName < second.1.internalName :=
  List.pairwise_map

/-! ### One row -/

theorem insertRow_perm (row : ClassIdentity × TargetSpec)
    (rows : List (ClassIdentity × TargetSpec)) : (insertRow row rows).Perm (row :: rows) := by
  induction rows with
  | nil => exact .refl _
  | cons first later ih =>
      unfold insertRow
      split
      · exact .refl _
      · exact (ih.cons first).trans (.swap row first later)

/-- A class that is not listed finds its place between the names before and behind it. -/
theorem ordered_insertRow (ordered : (TargetRegistry.mk rows).Ordered)
    (unlisted : row.1 ∉ rows.map Prod.fst) : (TargetRegistry.mk (insertRow row rows)).Ordered := by
  rw [ordered_iff_pairwise] at ordered ⊢
  induction rows with
  | nil => exact List.pairwise_singleton _ _
  | cons first later ih =>
      obtain ⟨firstBefore, laterOrdered⟩ := List.pairwise_cons.mp ordered
      unfold insertRow
      split
      case isTrue before =>
        refine List.pairwise_cons.mpr ⟨fun other member => ?_, ordered⟩
        rcases List.mem_cons.mp member with rfl | inLater
        · exact before
        · exact before.trans (firstBefore other inLater)
      case isFalse notBefore =>
        rw [List.map_cons, List.mem_cons, not_or] at unlisted
        obtain ⟨different, unlistedLater⟩ := unlisted
        have names : first.1.internalName ≠ row.1.internalName := fun same =>
          different (congrArg ClassIdentity.mk same.symm)
        have behind : first.1.internalName < row.1.internalName :=
          lt_of_le_of_ne (not_lt.mp notBefore) names
        refine List.pairwise_cons.mpr ⟨fun other member => ?_, ih laterOrdered unlistedLater⟩
        rcases List.mem_cons.mp ((insertRow_perm row later).mem_iff.mp member) with rfl | inLater
        · exact behind
        · exact firstBefore other inLater

theorem listed_iff {identity : ClassIdentity} :
    (registry.targets.any fun row => row.1 = identity) = true ↔
      identity ∈ registry.targets.map Prod.fst := by
  simp only [List.any_eq_true, decide_eq_true_eq, List.mem_map]

theorem insert_eq_ok_iff :
    registry.insert row.1 row.2 = .ok next ↔
      row.1 ∉ registry.targets.map Prod.fst ∧ next = ⟨insertRow row registry.targets⟩ := by
  rw [← listed_iff, insert]
  by_cases listed : (registry.targets.any fun other => other.1 = row.1) = true
  · rw [if_pos listed]
    exact ⟨nofun, fun accepted => absurd listed accepted.1⟩
  · rw [if_neg listed, Except.ok.injEq, eq_comm]
    exact ⟨fun same => ⟨listed, same⟩, And.right⟩

theorem insert_eq_error_iff :
    registry.insert row.1 row.2 = .error fault ↔
      row.1 ∈ registry.targets.map Prod.fst ∧ fault = ⟨row.1⟩ := by
  rw [← listed_iff, insert]
  by_cases listed : (registry.targets.any fun other => other.1 = row.1) = true
  · rw [if_pos listed, Except.error.injEq, eq_comm]
    exact ⟨fun same => ⟨listed, same⟩, And.right⟩
  · rw [if_neg listed]
    exact ⟨nofun, fun refused => absurd refused.1 listed⟩

/-! ### All rows -/

/-- The table is these rows in order, and they name no class twice. -/
structure MadeOf (registry : TargetRegistry) (rows : List (ClassIdentity × TargetSpec)) :
    Prop where
  distinct : (rows.map Prod.fst).Nodup
  ordered : registry.Ordered
  perm : registry.targets.Perm rows

theorem MadeOf.concat (made : registry.MadeOf rows) (unlisted : row.1 ∉ rows.map Prod.fst) :
    ∃ next, registry.insert row.1 row.2 = .ok next ∧ next.MadeOf (rows ++ [row]) := by
  have unlistedThere : row.1 ∉ registry.targets.map Prod.fst := by
    rwa [(made.perm.map Prod.fst).mem_iff]
  refine ⟨_, insert_eq_ok_iff.mpr ⟨unlistedThere, rfl⟩, ?_, ?_, ?_⟩
  · rw [List.map_append, List.map_singleton, List.nodup_append_comm]
    exact List.nodup_cons.mpr ⟨unlisted, made.distinct⟩
  · exact ordered_insertRow made.ordered unlistedThere
  · exact (insertRow_perm row registry.targets).trans
      ((made.perm.cons row).trans (List.perm_append_singleton row rows).symm)

/-- There is only one way to put rows in order. -/
theorem MadeOf.unique {other : TargetRegistry} (made : registry.MadeOf rows)
    (madeToo : other.MadeOf rows) : registry = other := by
  have same : registry.targets = other.targets := by
    refine (made.perm.trans madeToo.perm.symm).eq_of_pairwise (fun _ _ _ _ before behind => ?_)
      (ordered_iff_pairwise.mp made.ordered) (ordered_iff_pairwise.mp madeToo.ordered)
    exact absurd behind before.asymm
  cases registry
  cases other
  exact congrArg TargetRegistry.mk same

theorem madeOf_nil : MadeOf ⟨[]⟩ [] := ⟨.nil, .nil, .nil⟩

theorem ofRows_concat (rows : List (ClassIdentity × TargetSpec))
    (row : ClassIdentity × TargetSpec) :
    ofRows (rows ++ [row]) = ofRows rows >>= fun registry => registry.insert row.1 row.2 := by
  rw [ofRows, List.foldlM_append]
  simp only [List.foldlM_cons, List.foldlM_nil, bind_pure]
  rfl

theorem madeOf_of_ofRows (success : ofRows rows = .ok registry) : registry.MadeOf rows := by
  induction rows using List.reverseRecOn generalizing registry with
  | nil =>
      cases success
      exact madeOf_nil
  | append_singleton rows row ih =>
      rw [ofRows_concat] at success
      obtain ⟨before, successBefore, accepted⟩ := bindExcept_eq_ok_iff.mp success
      have made := ih successBefore
      obtain ⟨unlisted, -⟩ := insert_eq_ok_iff.mp accepted
      rw [(made.perm.map Prod.fst).mem_iff] at unlisted
      obtain ⟨next, acceptedToo, madeNext⟩ := made.concat unlisted
      cases accepted.symm.trans acceptedToo
      exact madeNext

/-- Rows that name no class twice are accepted one after the other. -/
theorem exists_ofRows (distinct : (rows.map Prod.fst).Nodup) :
    ∃ registry, ofRows rows = .ok registry := by
  induction rows using List.reverseRecOn with
  | nil => exact ⟨_, rfl⟩
  | append_singleton rows row ih =>
      rw [List.map_append, List.map_singleton, List.nodup_append_comm] at distinct
      obtain ⟨unlisted, distinctBefore⟩ := List.nodup_cons.mp distinct
      obtain ⟨registry, success⟩ := ih distinctBefore
      obtain ⟨next, accepted, -⟩ := (madeOf_of_ofRows success).concat unlisted
      rw [ofRows_concat]
      exact ⟨next, bindExcept_eq_ok_iff.mpr ⟨registry, success, accepted⟩⟩

/-- A list of rows makes the one table that has them in order, if it names no class twice. -/
theorem ofRows_eq_ok_iff : ofRows rows = .ok registry ↔ registry.MadeOf rows := by
  refine ⟨madeOf_of_ofRows, fun made => ?_⟩
  obtain ⟨other, success⟩ := exists_ofRows made.distinct
  rwa [made.unique (madeOf_of_ofRows success)]

/-- Otherwise it is refused, and the first class that is there for the second time is told. -/
theorem ofRows_eq_error_iff :
    ofRows rows = .error fault ↔
      ∃ before row later, rows = before ++ row :: later ∧ (before.map Prod.fst).Nodup ∧
        row.1 ∈ before.map Prod.fst ∧ fault = ⟨row.1⟩ := by
  rw [ofRows, foldlExcept_eq_error_iff]
  constructor
  · rintro ⟨before, row, later, reached, split, success, refused⟩
    have made : reached.MadeOf before := madeOf_of_ofRows success
    rw [insert_eq_error_iff, (made.perm.map Prod.fst).mem_iff] at refused
    exact ⟨before, row, later, split, made.distinct, refused⟩
  · rintro ⟨before, row, later, split, distinct, refused⟩
    obtain ⟨reached, success⟩ := exists_ofRows distinct
    rw [← ((madeOf_of_ofRows success).perm.map Prod.fst).mem_iff, ← insert_eq_error_iff] at refused
    exact ⟨before, row, later, reached, split, success, refused⟩

/-- The tables that are made of rows are those in order. -/
theorem ordered_iff_exists_ofRows : registry.Ordered ↔ ∃ rows, ofRows rows = .ok registry := by
  refine ⟨fun ordered => ⟨registry.targets, ofRows_eq_ok_iff.mpr ⟨?_, ordered, .refl _⟩⟩, ?_⟩
  · refine List.pairwise_map.mpr ((ordered_iff_pairwise.mp ordered).imp fun before same => ?_)
    rw [same] at before
    exact lt_irrefl _ before
  · rintro ⟨rows, success⟩
    exact (madeOf_of_ofRows success).ordered

theorem ordered_builtin : builtin.Ordered := ordered_iff_exists_ofRows.mpr ⟨_, ofRows_builtin⟩

/-! ### Looking at a table -/

/-- Of the targets that something holds of, this is the first in the order of names. -/
structure IsFirst (registry : TargetRegistry) (property : String → Prop) (name : String) :
    Prop where
  listed : name ∈ registry.names
  holds : property name
  earlier : ∀ other ∈ registry.names, other < name → ¬property other

variable {name : String}

/-- A class that the table does not list has nothing to report. -/
theorem methodsOf_of_not_mem (unlisted : name ∉ registry.names) :
    registry.methodsOf ⟨name⟩ = [] := by
  have missing : registry.spec? ⟨name⟩ = none := by
    rw [spec?, Option.map_eq_none_iff, List.find?_eq_none]
    intro row member same
    have identity : row.1 = ⟨name⟩ := of_decide_eq_true same
    exact unlisted (List.mem_map.mpr ⟨row, member, by rw [identity]⟩)
  rw [methodsOf, missing]

/-- In an ordered table, none of the targets in front of the first one is like it. -/
theorem IsFirst.exists_split (ordered : registry.Ordered) {property : String → Prop}
    (first : registry.IsFirst property name) :
    ∃ before later, registry.names = before ++ name :: later ∧
      ∀ other ∈ before, ¬property other := by
  obtain ⟨before, later, split⟩ := List.append_of_mem first.listed
  rw [Ordered, split, List.pairwise_append] at ordered
  obtain ⟨-, -, inOrder⟩ := ordered
  refine ⟨before, later, split, fun other member => ?_⟩
  have listed : other ∈ registry.names := split ▸ List.mem_append_left _ member
  exact first.earlier other listed (inOrder other member name List.mem_cons_self)

end TargetRegistry

end Lookout
