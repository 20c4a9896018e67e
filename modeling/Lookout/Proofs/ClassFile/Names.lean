/-
# Names as bytes and as texts

Members and attributes are found by the bytes of their names, and no name in the class is
decoded for that. An entry whose bytes are those of a text is decoded to this text, so
what is found is never called otherwise. Where all texts of the pool are in the encoding
that is prescribed for them, the converse holds as well, and a search finds what it would
find if it decoded every name on its way.
-/

import Lookout.ClassFile.Lookup
import Lookout.Proofs.ConstantPool.Growth
import Mathlib.Data.List.Basic
import Mathlib.Order.Bounds.Basic

namespace Lookout

namespace ConstantPool

variable {pool : ConstantPool} {index : UInt16} {text : String}

theorem eq_of_utf8Matches {other : String} (same : pool.utf8Matches index text = true)
    (sameToo : pool.utf8Matches index other = true) : text = other :=
  Except.ok.inj ((utf8_of_utf8Matches same).symm.trans (utf8_of_utf8Matches sameToo))

/-- All texts of the pool are in the prescribed encoding. -/
def Canonical (pool : ConstantPool) : Prop :=
  ∀ bytes, some (Constant.utf8 bytes) ∈ pool.slots.toList →
    ∃ text, bytes = Text.ModifiedUtf8.encode text

/-- With canonical texts, the comparison of bytes is the comparison of texts. -/
theorem Canonical.utf8Matches_iff (canonical : pool.Canonical) :
    pool.utf8Matches index text = true ↔ pool.utf8 index = .ok text := by
  refine ⟨utf8_of_utf8Matches, fun found => ?_⟩
  obtain ⟨bytes, there, read⟩ := utf8_eq_ok_iff.mp found
  obtain ⟨other, rfl⟩ := canonical bytes (mem_slots_of_get there)
  rw [Text.ModifiedUtf8.decode?_encode, Option.some.injEq] at read
  rw [ConstantPool.utf8Matches_iff, there, read]

end ConstantPool

namespace Member

/-- The member's name and descriptor are decoded to these texts. -/
def Declares (pool : ConstantPool) (name descriptor : String) (member : Member) : Prop :=
  pool.utf8 member.nameIndex = .ok name ∧ pool.utf8 member.descriptorIndex = .ok descriptor

/-- A pool that grows leaves a member its name and its descriptor. -/
theorem Declares.of_growsTo {pool later : ConstantPool} {name descriptor : String}
    {member : Member} (declares : member.Declares pool name descriptor)
    (grows : pool.GrowsTo later) : member.Declares later name descriptor :=
  ⟨grows.utf8 declares.1, grows.utf8 declares.2⟩

theorem isCalled_iff {pool : ConstantPool} (canonical : pool.Canonical) {name descriptor : String}
    {member : Member} :
    member.isCalled pool name descriptor = true ↔ member.Declares pool name descriptor := by
  rw [isCalled, Bool.and_eq_true_iff, canonical.utf8Matches_iff, canonical.utf8Matches_iff]
  rfl

/-- The search ends at the least index of a member that declares the name and descriptor,
and without an index exactly if no member does. -/
structure FindsFirst (pool : ConstantPool) (members : List Member)
    (find : String → String → Option Nat) : Prop where
  some_iff : ∀ name descriptor index, find name descriptor = some index ↔
    IsLeast {index | ∃ member, members[index]? = some member ∧
      member.Declares pool name descriptor} index
  none_iff : ∀ name descriptor, find name descriptor = none ↔
    ∀ member ∈ members, ¬ member.Declares pool name descriptor

theorem findsFirst {pool : ConstantPool} (canonical : pool.Canonical) (members : List Member) :
    FindsFirst pool members fun name descriptor =>
      members.findIdx? (isCalled pool name descriptor) where
  some_iff name descriptor index := by
    rw [List.findIdx?_eq_some_iff_getElem]
    constructor
    · rintro ⟨inside, called, notBefore⟩
      refine ⟨⟨_, List.getElem?_eq_getElem inside, (isCalled_iff canonical).mp called⟩, ?_⟩
      rintro other ⟨member, there, declares⟩
      obtain ⟨_, rfl⟩ := List.getElem?_eq_some_iff.mp there
      exact Nat.le_of_not_lt fun before =>
        notBefore other before ((isCalled_iff canonical).mpr declares)
    · rintro ⟨⟨member, there, declares⟩, least⟩
      obtain ⟨inside, rfl⟩ := List.getElem?_eq_some_iff.mp there
      refine ⟨inside, (isCalled_iff canonical).mpr declares, fun earlier before called => ?_⟩
      have beforeInside := Nat.lt_trans before inside
      exact absurd (least ⟨_, List.getElem?_eq_getElem beforeInside,
        (isCalled_iff canonical).mp called⟩) (Nat.not_le.mpr before)
  none_iff name descriptor := by
    rw [List.findIdx?_eq_none_iff]
    simp only [← isCalled_iff canonical, Bool.not_eq_true]

end Member

namespace ClassFile

/-- Every search by name comes to what it would come to if it decoded the names. -/
structure FindsByText (file : ClassFile) : Prop where
  methods : Member.FindsFirst file.pool file.methods file.findMethod?
  fields : Member.FindsFirst file.pool file.fields file.findField?
  inOrder : ∀ name, (file.methodsNamed name).Pairwise (· < ·)
  overloads : ∀ name index, index ∈ file.methodsNamed name ↔
    ∃ method, file.methods[index]? = some method ∧ file.pool.utf8 method.nameIndex = .ok name
  attributes : ∀ (member : Member) name item, member.attribute? file.pool name = some item ↔
    file.pool.utf8 item.nameIndex = .ok name ∧ ∃ front back,
      member.attributes = front ++ item :: back ∧
        ∀ other ∈ front, file.pool.utf8 other.nameIndex ≠ .ok name
  noAttribute : ∀ (member : Member) name, member.attribute? file.pool name = none ↔
    ∀ item ∈ member.attributes, file.pool.utf8 item.nameIndex ≠ .ok name

theorem methodsNamed_eq_findIdxs (file : ClassFile) (name : String) :
    file.methodsNamed name =
      file.methods.findIdxs fun method => file.pool.utf8Matches method.nameIndex name := by
  rw [List.findIdxs_eq_filterMap_zipIdx, methodsNamed]
  simp only [Bool.cond_eq_ite]

/-- An entry that is taken for a text is decoded to this text, and is not taken for
another. In a class whose texts are in the prescribed encoding, methods and fields are
found by name and descriptor, overloads by name, and attributes by name, exactly as their
decoded names say. -/
theorem findsByText_of_canonical :
    (∀ (pool : ConstantPool) index text,
      pool.utf8Matches index text = true → pool.utf8 index = .ok text) ∧
    (∀ (pool : ConstantPool) index text other, pool.utf8Matches index text = true →
      pool.utf8Matches index other = true → text = other) ∧
    ∀ file : ClassFile, file.pool.Canonical → file.FindsByText := by
  refine ⟨fun _ _ _ => ConstantPool.utf8_of_utf8Matches,
    fun _ _ _ _ => ConstantPool.eq_of_utf8Matches, fun file canonical => ?_⟩
  have named (name : String) (item : Attribute) :
      item.isNamed file.pool name = true ↔ file.pool.utf8 item.nameIndex = .ok name :=
    canonical.utf8Matches_iff
  constructor
  case methods => exact Member.findsFirst canonical file.methods
  case fields => exact Member.findsFirst canonical file.fields
  case inOrder =>
    intro name
    rw [methodsNamed_eq_findIdxs]
    exact List.pairwise_findIdxs
  case overloads =>
    intro name index
    rw [methodsNamed_eq_findIdxs, List.mem_findIdxs_iff_exists_getElem_pos]
    simp only [canonical.utf8Matches_iff, List.getElem?_eq_some_iff]
    constructor
    · rintro ⟨inside, called⟩
      exact ⟨_, ⟨inside, rfl⟩, called⟩
    · rintro ⟨_, ⟨inside, rfl⟩, called⟩
      exact ⟨inside, called⟩
  case attributes =>
    intro member name item
    simp only [Member.attribute?, List.find?_eq_some_iff_append, Bool.not_eq_true', ← named, ne_eq,
      Bool.not_eq_true]
  case noAttribute =>
    intro member name
    simp only [Member.attribute?, List.find?_eq_none, named, ne_eq]

/-- A class with two methods of one name, which takes two surrogates, behind a method whose
name is no entry and one whose name is no text. -/
def surrogateSample : ClassFile where
  minorVersion := 0
  majorVersion := 52
  pool := ⟨#[none, some (.utf8 (Text.ModifiedUtf8.encode "😀")),
    some (.utf8 (Text.ModifiedUtf8.encode "()V")), some (.classInfo 1)]⟩
  access := Access.publicFlag
  thisClass := 3
  superClass := 0
  interfaces := []
  fields := []
  methods := [⟨0, 9, 2, []⟩, ⟨0, 3, 2, []⟩, ⟨0, 1, 2, [⟨2, [7]⟩]⟩, ⟨0, 1, 1, []⟩]
  attributes := []

/-- In that class the third method is the first with the name and a descriptor, and it is
named as the fourth one is. -/
theorem findsByText_surrogateSample :
    surrogateSample.pool.Canonical ∧ surrogateSample.pool.utf8 1 = .ok "😀" ∧
      surrogateSample.findMethod? "😀" "()V" = some 2 ∧
      IsLeast {index | ∃ method, surrogateSample.methods[index]? = some method ∧
        method.Declares surrogateSample.pool "😀" "()V"} 2 ∧
      surrogateSample.methodsNamed "😀" = [2, 3] := by
  have canonical : surrogateSample.pool.Canonical := by
    intro bytes there
    have entries : bytes = Text.ModifiedUtf8.encode "😀" ∨
        bytes = Text.ModifiedUtf8.encode "()V" := by
      simpa [surrogateSample] using there
    rcases entries with rfl | rfl
    · exact ⟨_, rfl⟩
    · exact ⟨_, rfl⟩
  have found : surrogateSample.findMethod? "😀" "()V" = some 2 := by decide +kernel
  have spelled : surrogateSample.pool.utf8Matches 1 "😀" = true := by decide +kernel
  have finds := findsByText_of_canonical.2.2 surrogateSample canonical
  exact ⟨canonical, findsByText_of_canonical.1 _ _ _ spelled, found,
    (finds.methods.some_iff _ _ _).mp found, by decide +kernel⟩

end ClassFile

end Lookout
