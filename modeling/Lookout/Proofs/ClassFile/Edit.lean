/-
# What edits of a class change

The edits that put code and attributes into a method change two things: the pool
grows by a name, and the one method gets another list of attributes. Since pools
only grow, whatever was found by name before such an edit is found at the same
place afterwards, in this class and in all that it turns into.
-/

import Lookout.ClassFile.Edit
import Lookout.Proofs.ConstantPool.Interning
import Lookout.Proofs.MethodCode.Format
import Mathlib.Data.List.Find

namespace Lookout

namespace ClassEdit

open Effect

theorem interned_eq_ok_iff {α : Type} {action : Interning α} {file next : ClassFile} {value : α} :
    interned action file = (.ok value, next) ↔
      ∃ pool, action file.pool = (.ok value, pool) ∧ next = { file with pool } := by
  unfold interned
  obtain ⟨result, pool⟩ := action file.pool
  constructor
  · intro success
    cases success
    exact ⟨pool, rfl, rfl⟩
  · rintro ⟨_, same, rfl⟩
    cases same
    rfl

theorem changeMethod_eq_ok_iff {index : Nat} {change : ConstantPool → Member → Member}
    {file next : ClassFile} :
    changeMethod index change file = (.ok (), next) ↔
      ∃ method, file.methods[index]? = some method ∧
        next = { file with methods := file.methods.set index (change file.pool method) } := by
  unfold changeMethod
  cases file.methods[index]? with
  | none =>
      constructor
      · intro impossible
        cases impossible
      · rintro ⟨_, impossible, -⟩
        cases impossible
  | some method =>
      constructor
      · intro success
        cases success
        exact ⟨method, rfl, rfl⟩
      · rintro ⟨_, same, rfl⟩
        cases same
        rfl

theorem setMethodCode_eq_ok_iff {index : Nat} {body : MethodCode} {file next : ClassFile} :
    setMethodCode index body file = (.ok (), next) ↔
      ∃ nameIndex pool method,
        Interning.utf8 MethodCode.attributeName file.pool = (.ok nameIndex, pool) ∧
        file.methods[index]? = some method ∧
        next = { file with
          pool
          methods := file.methods.set index
            (method.replaceAttribute pool MethodCode.attributeName ⟨nameIndex, body.bytes⟩) } := by
  constructor
  · intro success
    obtain ⟨nameIndex, _, internedName, changed⟩ := bind_eq_ok_iff.mp success
    obtain ⟨pool, interning, rfl⟩ := interned_eq_ok_iff.mp internedName
    obtain ⟨method, found, rfl⟩ := changeMethod_eq_ok_iff.mp changed
    exact ⟨nameIndex, pool, method, interning, found, rfl⟩
  · rintro ⟨nameIndex, pool, method, interning, found, rfl⟩
    exact bind_eq_ok_iff.mpr ⟨nameIndex, _, interned_eq_ok_iff.mpr ⟨pool, interning, rfl⟩,
      changeMethod_eq_ok_iff.mpr ⟨method, found, rfl⟩⟩

theorem addMethodAttribute_eq_ok_iff {index : Nat} {name : String} {info : Bytes}
    {file next : ClassFile} :
    addMethodAttribute index name info file = (.ok (), next) ↔
      ∃ nameIndex pool method, Interning.utf8 name file.pool = (.ok nameIndex, pool) ∧
        file.methods[index]? = some method ∧
        next = { file with
          pool
          methods := file.methods.set index
            (method.ensureAttribute pool name ⟨nameIndex, info⟩) } := by
  constructor
  · intro success
    obtain ⟨nameIndex, _, internedName, changed⟩ := bind_eq_ok_iff.mp success
    obtain ⟨pool, interning, rfl⟩ := interned_eq_ok_iff.mp internedName
    obtain ⟨method, found, rfl⟩ := changeMethod_eq_ok_iff.mp changed
    exact ⟨nameIndex, pool, method, interning, found, rfl⟩
  · rintro ⟨nameIndex, pool, method, interning, found, rfl⟩
    exact bind_eq_ok_iff.mpr ⟨nameIndex, _, interned_eq_ok_iff.mpr ⟨pool, interning, rfl⟩,
      changeMethod_eq_ok_iff.mpr ⟨method, found, rfl⟩⟩

end ClassEdit

/-! ### Attributes by name -/

namespace Member

variable {earlier later pool : ConstantPool} {name : String}

theorem hasAttribute_iff {member : Member} :
    member.hasAttribute pool name = true ↔
      ∃ item ∈ member.attributes, pool.utf8Matches item.nameIndex name = true := by
  rw [hasAttribute, attribute?, List.find?_isSome]
  rfl

/-- Only the names of the attributes matter. -/
theorem hasAttribute_eq_any (member : Member) (pool : ConstantPool) (name : String) :
    member.hasAttribute pool name =
      (member.attributes.map Attribute.nameIndex).any (pool.utf8Matches · name) := by
  rw [Bool.eq_iff_iff, hasAttribute_iff]
  simp

theorem hasAttribute_of_grows (grows : earlier.GrowsTo later) {member : Member}
    (has : member.hasAttribute earlier name = true) : member.hasAttribute later name = true := by
  obtain ⟨item, there, named⟩ := hasAttribute_iff.mp has
  exact hasAttribute_iff.mpr ⟨item, there, grows.utf8Matches named⟩

/-- The attributes of a member are these, and of them the one in the middle is the first
that has the name. -/
structure SplitsAt (pool : ConstantPool) (name : String) (member : Member) (front : List Attribute)
    (item : Attribute) (back : List Attribute) : Prop where
  attributes : member.attributes = front ++ item :: back
  named : item.isNamed pool name = true
  first : ∀ other ∈ front, other.isNamed pool name = false

variable {member : Member} {front back : List Attribute} {old : Attribute}

/-- The first attribute with the name is the one to be found. -/
theorem SplitsAt.attribute?_eq (splits : member.SplitsAt pool name front old back) :
    member.attribute? pool name = some old := by
  rw [attribute?, splits.attributes, List.find?_append, List.find?_eq_none.mpr, Option.none_or,
    List.find?_cons_of_pos splits.named]
  intro other there
  exact Bool.eq_false_iff.mp (splits.first other there)

theorem exists_splitsAt {item : Attribute} (found : member.attribute? pool name = some item) :
    ∃ front back, member.SplitsAt pool name front item back := by
  obtain ⟨named, front, back, attributes, first⟩ := List.find?_eq_some_iff_append.mp found
  exact ⟨front, back, attributes, named, fun other there => by simpa using first other there⟩

/-- The attribute in the middle is the one whose body is replaced. -/
theorem SplitsAt.replaceAttribute_eq (splits : member.SplitsAt pool name front old back)
    (item : Attribute) :
    member.replaceAttribute pool name item =
      { member with attributes := front ++ { old with info := item.info } :: back } := by
  have notInFront : front.findIdx? (Attribute.isNamed pool name) = none :=
    List.findIdx?_eq_none_iff.mpr splits.first
  have position : member.attributes.findIdx? (Attribute.isNamed pool name) = some front.length := by
    rw [splits.attributes, List.findIdx?_append, notInFront, List.findIdx?_cons, splits.named]
    simp
  rw [replaceAttribute, position]
  dsimp only
  have inside : front.length < (front ++ old :: back).length := by simp
  rw [splits.attributes, List.modify_eq_take_cons_drop inside]
  simp

/-- With another body and other attributes behind, it is still the same attribute that is
the first with the name, in any larger pool: the name is an entry already. -/
theorem SplitsAt.withInfo (splits : member.SplitsAt earlier name front old back)
    (grows : earlier.GrowsTo later) {other : Member} {info : Bytes} {more : List Attribute}
    (attributes : other.attributes = front ++ { old with info } :: more) :
    other.SplitsAt later name front { old with info } more where
  attributes := attributes
  named := grows.utf8Matches splits.named
  first item inFront := (grows.utf8Matches_eq splits.named item.nameIndex).trans
    (splits.first item inFront)

theorem code?_eq_some_iff {body : MethodCode} :
    member.code? pool = .ok (some body) ↔
      ∃ item, member.attribute? pool MethodCode.attributeName = some item ∧
        item.info = body.bytes ∧ body.Fits := by
  unfold code?
  cases member.attribute? pool MethodCode.attributeName with
  | none => simp
  | some item =>
      simp only [Option.some.injEq, exists_eq_left']
      rw [← MethodCode.ofBytes_eq_ok_iff]
      cases MethodCode.ofBytes item.info <;> simp [Except.map]

/-- Code that replaces the body of the first code attribute is the code of the method. -/
theorem SplitsAt.code?_withInfo
    (splits : member.SplitsAt earlier MethodCode.attributeName front old back)
    (grows : earlier.GrowsTo later) {other : Member} {body : MethodCode} {more : List Attribute}
    (attributes : other.attributes = front ++ { old with info := body.bytes } :: more)
    (fits : body.Fits) : other.code? later = .ok (some body) :=
  code?_eq_some_iff.mpr ⟨_, (splits.withInfo grows attributes).attribute?_eq, rfl, fits⟩

/-- Attributes are found by a name that some entry spells as they were found by it before. -/
theorem attribute?_eq_of_spelled (grows : earlier.GrowsTo later) {witness : UInt16}
    (spelled : earlier.utf8Matches witness name = true) (member : Member) :
    member.attribute? later name = member.attribute? earlier name :=
  List.find?_congr fun item _ => grows.utf8Matches_eq spelled item.nameIndex

theorem code?_eq_of_spelled (grows : earlier.GrowsTo later) {witness : UInt16}
    (spelled : earlier.utf8Matches witness MethodCode.attributeName = true) (member : Member) :
    member.code? later = member.code? earlier := by
  rw [code?, code?, attribute?_eq_of_spelled grows spelled]

/-- All attribute names are entries of the pool. -/
def NamesInside (pool : ConstantPool) (member : Member) : Prop :=
  ∀ item ∈ member.attributes, item.nameIndex.toNat < pool.count

instance (pool : ConstantPool) (member : Member) : Decidable (member.NamesInside pool) :=
  inferInstanceAs (Decidable (∀ item ∈ member.attributes, item.nameIndex.toNat < pool.count))

section Inside

variable (grows : earlier.GrowsTo later) (inside : member.NamesInside earlier)

include grows inside

theorem NamesInside.of_grows : member.NamesInside later :=
  fun item there => Nat.lt_of_lt_of_le (inside item there) grows.count_le

/-- Attributes whose names are entries are found by the same names in a larger pool. -/
theorem isNamed_eq_of_grows {item : Attribute} (there : item ∈ member.attributes) (name : String) :
    item.isNamed later name = item.isNamed earlier name :=
  grows.utf8Matches_of_lt (inside item there) name

theorem attribute?_eq_of_grows (name : String) :
    member.attribute? later name = member.attribute? earlier name := by
  rw [attribute?, attribute?,
    List.find?_congr fun item there => isNamed_eq_of_grows grows inside there name]

theorem hasAttribute_eq_of_grows (name : String) :
    member.hasAttribute later name = member.hasAttribute earlier name := by
  rw [hasAttribute, hasAttribute, attribute?_eq_of_grows grows inside]

theorem code?_eq_of_grows : member.code? later = member.code? earlier := by
  rw [code?, code?, attribute?_eq_of_grows grows inside]

theorem SplitsAt.of_grows (splits : member.SplitsAt later name front old back) :
    member.SplitsAt earlier name front old back where
  attributes := splits.attributes
  named := by
    have there : old ∈ member.attributes := by simp [splits.attributes]
    rw [← isNamed_eq_of_grows grows inside there, splits.named]
  first other inFront := by
    have there : other ∈ member.attributes := by simp [splits.attributes, inFront]
    rw [← isNamed_eq_of_grows grows inside there, splits.first other inFront]

end Inside

/-- A body is replaced where an attribute has the name, and appended where none has. -/
theorem replaceAttribute_cases (member : Member) (pool : ConstantPool) (name : String)
    (item : Attribute) :
    (∃ front old back, member.SplitsAt pool name front old back ∧
        member.replaceAttribute pool name item =
          { member with attributes := front ++ { old with info := item.info } :: back }) ∨
      (member.hasAttribute pool name = false ∧
        member.replaceAttribute pool name item = member.appendAttribute item) := by
  cases found : member.attributes.findIdx? (Attribute.isNamed pool name) with
  | none =>
      refine .inr ⟨Bool.eq_false_iff.mpr fun has => ?_, ?_⟩
      · obtain ⟨old, there, named⟩ := hasAttribute_iff.mp has
        exact Bool.eq_false_iff.mp (List.findIdx?_eq_none_iff.mp found old there) named
      · rw [replaceAttribute, found]
        rfl
  | some index =>
      obtain ⟨inside, named, notBefore⟩ := List.findIdx?_eq_some_iff_getElem.mp found
      have splits : member.SplitsAt pool name (member.attributes.take index)
          member.attributes[index] (member.attributes.drop (index + 1)) := by
        refine ⟨?_, named, fun other there => ?_⟩
        · rw [← List.drop_eq_getElem_cons inside, List.take_append_drop]
        · obtain ⟨earlier, before, rfl⟩ := List.mem_take_iff_getElem.mp there
          exact Bool.eq_false_iff.mpr (notBefore earlier (by omega))
      exact .inl ⟨_, _, _, splits, splits.replaceAttribute_eq item⟩

/-- Where an attribute has the name, a body is replaced. -/
theorem replaceAttribute_of_hasAttribute (has : member.hasAttribute pool name = true)
    (item : Attribute) :
    ∃ front old back, member.SplitsAt pool name front old back ∧
      member.replaceAttribute pool name item =
        { member with attributes := front ++ { old with info := item.info } :: back } := by
  rcases member.replaceAttribute_cases pool name item with replaced | ⟨hasNot, -⟩
  · exact replaced
  · rw [has] at hasNot
    cases hasNot

theorem ensureAttribute_eq_or (member : Member) (pool : ConstantPool) (name : String)
    (item : Attribute) :
    member.ensureAttribute pool name item = member ∨
      member.ensureAttribute pool name item = member.appendAttribute item := by
  unfold ensureAttribute
  split
  · exact .inl rfl
  · exact .inr rfl

/-- An attribute gets another body, and one with another name is appended behind: with the
names of all attributes in the pool, nothing else can come of a replacement and an addition,
whatever the pool has grown to in between. -/
theorem ensureAttribute_replaceAttribute {last : ConstantPool} {added : String}
    {item marker : Attribute} (splits : member.SplitsAt pool name front old back)
    (inside : member.NamesInside pool) (lacks : member.hasAttribute pool added = false)
    (grows : pool.GrowsTo later) (growsFurther : later.GrowsTo last) :
    (member.replaceAttribute later name item).ensureAttribute last added marker =
      { member with
        attributes := front ++ { old with info := item.info } :: back ++ [marker] } := by
  have splitsLater : member.SplitsAt later name front old back :=
    splits.withInfo grows splits.attributes
  have lacksStill :
      (member.replaceAttribute later name item).hasAttribute last added = false := by
    have sameNames : (member.replaceAttribute later name item).attributes.map Attribute.nameIndex =
        member.attributes.map Attribute.nameIndex := by
      rw [splitsLater.replaceAttribute_eq, splits.attributes]
      simp
    rw [hasAttribute_eq_any, sameNames, ← hasAttribute_eq_any,
      hasAttribute_eq_of_grows (grows.trans growsFurther) inside, lacks]
  rw [ensureAttribute, lacksStill, if_neg Bool.false_ne_true, splitsLater.replaceAttribute_eq]

/-- With a larger pool, the second member has all attributes that the first one had by
name, and is called as the first one was. -/
structure EvolvesTo (earlier later : ConstantPool) (member next : Member) : Prop where
  access : next.access = member.access
  nameIndex : next.nameIndex = member.nameIndex
  descriptorIndex : next.descriptorIndex = member.descriptorIndex
  attributes : ∀ name, member.hasAttribute earlier name = true → next.hasAttribute later name = true

theorem EvolvesTo.of_grows (grows : earlier.GrowsTo later) (member : Member) :
    member.EvolvesTo earlier later member :=
  ⟨rfl, rfl, rfl, fun _ => hasAttribute_of_grows grows⟩

theorem EvolvesTo.trans {last : ConstantPool} {member next final : Member}
    (first : member.EvolvesTo earlier later next) (second : next.EvolvesTo later last final) :
    member.EvolvesTo earlier last final :=
  ⟨second.access.trans first.access, second.nameIndex.trans first.nameIndex,
    second.descriptorIndex.trans first.descriptorIndex,
    fun name has => second.attributes name (first.attributes name has)⟩

/-- Replacing the body of an attribute loses no attribute. -/
theorem evolvesTo_replaceAttribute (grows : earlier.GrowsTo later) (name : String)
    (item : Attribute) (member : Member) :
    member.EvolvesTo earlier later (member.replaceAttribute later name item) := by
  rcases member.replaceAttribute_cases later name item with
    ⟨front, old, back, splits, replaced⟩ | ⟨-, appended⟩
  · rw [replaced]
    refine ⟨rfl, rfl, rfl, fun other has => ?_⟩
    obtain ⟨found, there, named⟩ := hasAttribute_iff.mp (hasAttribute_of_grows grows has)
    rw [splits.attributes] at there
    rcases List.mem_append.mp there with inFront | there
    · exact hasAttribute_iff.mpr ⟨found, List.mem_append_left _ inFront, named⟩
    · rcases List.mem_cons.mp there with rfl | inBack
      · exact hasAttribute_iff.mpr ⟨_, List.mem_append_right _ List.mem_cons_self, named⟩
      · exact hasAttribute_iff.mpr
          ⟨found, List.mem_append_right _ (List.mem_cons_of_mem _ inBack), named⟩
  · rw [appended]
    refine ⟨rfl, rfl, rfl, fun other has => ?_⟩
    obtain ⟨found, there, named⟩ := hasAttribute_iff.mp (hasAttribute_of_grows grows has)
    exact hasAttribute_iff.mpr ⟨found, List.mem_append_left _ there, named⟩

theorem evolvesTo_ensureAttribute (grows : earlier.GrowsTo later) (name : String)
    (item : Attribute) (member : Member) :
    member.EvolvesTo earlier later (member.ensureAttribute later name item) := by
  unfold ensureAttribute
  split
  · exact .of_grows grows member
  · refine ⟨rfl, rfl, rfl, fun other has => ?_⟩
    obtain ⟨old, there, named⟩ := hasAttribute_iff.mp (hasAttribute_of_grows grows has)
    exact hasAttribute_iff.mpr ⟨old, List.mem_append_left _ there, named⟩

theorem hasAttribute_ensureAttribute {item : Attribute}
    (named : pool.utf8Matches item.nameIndex name = true) (member : Member) :
    (member.ensureAttribute pool name item).hasAttribute pool name = true := by
  unfold ensureAttribute
  split
  · assumption
  · exact hasAttribute_iff.mpr
      ⟨item, List.mem_append_right _ (List.mem_singleton_self item), named⟩

end Member

namespace ClassFile

/-- The second class is the first after edits of methods: its pool has grown, and its
methods are what the methods of the first have become. -/
structure EvolvesTo (file next : ClassFile) : Prop where
  pool : file.pool.GrowsTo next.pool
  rest : next = { file with pool := next.pool, methods := next.methods }
  count : next.methods.length = file.methods.length
  methods : ∀ {index : Nat} {method : Member}, file.methods[index]? = some method →
    ∃ evolved, next.methods[index]? = some evolved ∧ method.EvolvesTo file.pool next.pool evolved

protected theorem EvolvesTo.refl (file : ClassFile) : file.EvolvesTo file :=
  ⟨.refl _, rfl, rfl, fun {_ method} found => ⟨method, found, .of_grows (.refl _) method⟩⟩

protected theorem EvolvesTo.trans {file next last : ClassFile} (first : file.EvolvesTo next)
    (second : next.EvolvesTo last) : file.EvolvesTo last where
  pool := first.pool.trans second.pool
  rest := by
    rw [second.rest, first.rest]
  count := second.count.trans first.count
  methods found := by
    obtain ⟨between, foundThere, evolves⟩ := first.methods found
    obtain ⟨evolved, foundLast, evolvesOn⟩ := second.methods foundThere
    exact ⟨evolved, foundLast, evolves.trans evolvesOn⟩

/-- A growing pool and one edited method. -/
theorem evolvesTo_set {file : ClassFile} {pool : ConstantPool} (grows : file.pool.GrowsTo pool)
    {index : Nat} {method edited : Member} (found : file.methods[index]? = some method)
    (evolves : method.EvolvesTo file.pool pool edited) :
    file.EvolvesTo { file with pool, methods := file.methods.set index edited } where
  pool := grows
  rest := rfl
  count := List.length_set
  methods {other old} foundOld := by
    by_cases same : index = other
    · subst same
      cases found.symm.trans foundOld
      obtain ⟨inside, -⟩ := List.getElem?_eq_some_iff.mp found
      exact ⟨edited, by rw [List.getElem?_set_self inside], evolves⟩
    · exact ⟨old, by rw [List.getElem?_set_ne same, foundOld], .of_grows grows old⟩

theorem method_eq_ok_iff {file : ClassFile} {index : Nat} {method : Member} :
    file.method index = .ok method ↔ file.methods[index]? = some method := by
  unfold ClassFile.method
  cases file.methods[index]? with
  | none => simp
  | some found => simp

theorem methodCode_eq_ok_iff {file : ClassFile} {index : Nat} {code : Option MethodCode} :
    file.methodCode index = .ok code ↔
      ∃ method, file.methods[index]? = some method ∧ method.code? file.pool = .ok code := by
  simp only [methodCode, bindExcept_eq_ok_iff, method_eq_ok_iff]

/-- The first method with the name and descriptor, spelled out. -/
theorem findMethod?_eq_some_iff {file : ClassFile} {name descriptor : String} {index : Nat} :
    file.findMethod? name descriptor = some index ↔
      ∃ method, file.methods[index]? = some method ∧
        method.isCalled file.pool name descriptor = true ∧
        ∀ earlier < index, ∀ other, file.methods[earlier]? = some other →
          other.isCalled file.pool name descriptor = false := by
  rw [findMethod?, List.findIdx?_eq_some_iff_getElem]
  constructor
  · rintro ⟨inside, called, notBefore⟩
    refine ⟨file.methods[index], List.getElem?_eq_getElem inside, called, ?_⟩
    intro earlier before other there
    obtain ⟨_, rfl⟩ := List.getElem?_eq_some_iff.mp there
    exact Bool.eq_false_iff.mpr (notBefore earlier before)
  · rintro ⟨method, there, called, notBefore⟩
    obtain ⟨inside, rfl⟩ := List.getElem?_eq_some_iff.mp there
    refine ⟨inside, called, fun earlier before => ?_⟩
    have beforeInside : earlier < file.methods.length := Nat.lt_trans before inside
    exact Bool.eq_false_iff.mp
      (notBefore earlier before _ (List.getElem?_eq_getElem beforeInside))

/-- A method that was found is found at the same place ever after. The names that are
looked for are entries already, so no new entry makes another method match. -/
theorem EvolvesTo.findMethod?_eq_some {file next : ClassFile} (evolves : file.EvolvesTo next)
    {name descriptor : String} {index : Nat}
    (found : file.findMethod? name descriptor = some index) :
    next.findMethod? name descriptor = some index := by
  obtain ⟨method, there, called, notBefore⟩ := findMethod?_eq_some_iff.mp found
  obtain ⟨named, described⟩ := Bool.and_eq_true_iff.mp called
  have calledAsBefore {old new : Member} (evolvesMember : old.EvolvesTo file.pool next.pool new) :
      new.isCalled next.pool name descriptor = old.isCalled file.pool name descriptor := by
    rw [Member.isCalled, Member.isCalled, evolvesMember.nameIndex, evolvesMember.descriptorIndex,
      evolves.pool.utf8Matches_eq named, evolves.pool.utf8Matches_eq described]
  obtain ⟨evolved, evolvedThere, evolvesMember⟩ := evolves.methods there
  refine findMethod?_eq_some_iff.mpr
    ⟨evolved, evolvedThere, ?_, fun earlier before other otherThere => ?_⟩
  · rw [calledAsBefore evolvesMember, called]
  · obtain ⟨inside, -⟩ := List.getElem?_eq_some_iff.mp there
    have oldThere : file.methods[earlier]? = some file.methods[earlier] :=
      List.getElem?_eq_getElem (Nat.lt_trans before inside)
    obtain ⟨_, sameThere, evolvesOther⟩ := evolves.methods oldThere
    cases sameThere.symm.trans otherThere
    rw [calledAsBefore evolvesOther]
    exact notBefore earlier before _ oldThere

/-- A field that was found is found at the same place ever after. -/
theorem EvolvesTo.findField?_eq_some {file next : ClassFile} (evolves : file.EvolvesTo next)
    {name descriptor : String} {index : Nat}
    (found : file.findField? name descriptor = some index) :
    next.findField? name descriptor = some index := by
  obtain ⟨_, called, -⟩ := List.findIdx?_eq_some_iff_getElem.mp found
  obtain ⟨named, described⟩ := Bool.and_eq_true_iff.mp called
  have sameFields : next.fields = file.fields := by rw [evolves.rest]
  have sameCalls : Member.isCalled next.pool name descriptor =
      Member.isCalled file.pool name descriptor := by
    funext member
    rw [Member.isCalled, Member.isCalled, evolves.pool.utf8Matches_eq named,
      evolves.pool.utf8Matches_eq described]
  rwa [findField?, sameFields, sameCalls]

/-- The attribute names of all methods are entries of the pool. -/
def NamesInside (file : ClassFile) : Prop :=
  ∀ method ∈ file.methods, method.NamesInside file.pool

instance (file : ClassFile) : Decidable file.NamesInside :=
  inferInstanceAs (Decidable (∀ method ∈ file.methods, method.NamesInside file.pool))

/-- The names and descriptors of all methods are entries of the pool. -/
def CalledInside (file : ClassFile) : Prop :=
  ∀ method ∈ file.methods,
    method.nameIndex.toNat < file.pool.count ∧ method.descriptorIndex.toNat < file.pool.count

instance (file : ClassFile) : Decidable file.CalledInside :=
  inferInstanceAs (Decidable (∀ method ∈ file.methods,
    method.nameIndex.toNat < file.pool.count ∧ method.descriptorIndex.toNat < file.pool.count))

theorem EvolvesTo.calledInside {file next : ClassFile} (evolves : file.EvolvesTo next)
    (inside : file.CalledInside) : next.CalledInside := by
  intro evolved member
  obtain ⟨index, inRange, rfl⟩ := List.mem_iff_getElem.mp member
  have inRangeBefore : index < file.methods.length := by rwa [← evolves.count]
  have there := List.getElem?_eq_getElem inRangeBefore
  obtain ⟨_, evolvedThere, evolvesMethod⟩ := evolves.methods there
  cases evolvedThere.symm.trans (List.getElem?_eq_getElem inRange)
  obtain ⟨nameInside, descriptorInside⟩ := inside _ (List.mem_of_getElem? there)
  rw [evolvesMethod.nameIndex, evolvesMethod.descriptorIndex]
  exact ⟨Nat.lt_of_lt_of_le nameInside evolves.pool.count_le,
    Nat.lt_of_lt_of_le descriptorInside evolves.pool.count_le⟩

/-- Where the names of all methods are entries, no method gets a name by an edit. -/
theorem EvolvesTo.findMethod?_eq {file next : ClassFile} (evolves : file.EvolvesTo next)
    (inside : file.CalledInside) (name descriptor : String) :
    next.findMethod? name descriptor = file.findMethod? name descriptor := by
  have sameCalls : next.methods.map (Member.isCalled next.pool name descriptor) =
      file.methods.map (Member.isCalled file.pool name descriptor) := by
    apply List.ext_getElem?
    intro index
    rw [List.getElem?_map, List.getElem?_map]
    cases there : file.methods[index]? with
    | none =>
        have outside : next.methods[index]? = none := by
          rw [List.getElem?_eq_none_iff, evolves.count, ← List.getElem?_eq_none_iff, there]
        rw [outside]
        rfl
    | some method =>
        obtain ⟨evolved, evolvedThere, evolvesMethod⟩ := evolves.methods there
        obtain ⟨nameInside, descriptorInside⟩ := inside method (List.mem_of_getElem? there)
        rw [evolvedThere, Option.map_some, Option.map_some, Member.isCalled, Member.isCalled,
          evolvesMethod.nameIndex, evolvesMethod.descriptorIndex,
          evolves.pool.utf8Matches_of_lt nameInside,
          evolves.pool.utf8Matches_of_lt descriptorInside]
  have found := congrArg (List.findIdx? id) sameCalls
  rwa [List.findIdx?_map, List.findIdx?_map] at found

end ClassFile

end Lookout
