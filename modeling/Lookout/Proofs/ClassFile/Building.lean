/-
# Adding members to a class

A field or method is added once its name and descriptor are in the pool, and only the pool
can refuse it. A field that is refused leaves no trace but constants. A method with code
is added before the name of its code attribute is interned: where the pool has room for
the name and the descriptor but not for this third text, the call fails and the method
stays, without its code.
-/

import Lookout.Proofs.ClassFile.Edit
import Lookout.Proofs.ClassFile.Names
import Lookout.Proofs.ConstantPool.Reachable
import Lookout.Proofs.ConstantPool.Room

namespace Lookout

open ConstantPool (maxSlots)

/-! ### Names and descriptors -/

namespace Interning

/-- Intern a name and a descriptor, one after the other. -/
def nameThenDescriptor (name descriptor : String) : Interning (UInt16 × UInt16) := do
  let nameIndex ← utf8 name
  let descriptorIndex ← utf8 descriptor
  return (nameIndex, descriptorIndex)

/-- From the one pool to the other a name and a descriptor were interned, as the pair of
indices. Texts that are still to be interned need as many slots as was to be expected. -/
structure NamesThenDescribes (name descriptor : String) (indices : UInt16 × UInt16)
    (pool later : ConstantPool) : Prop where
  grows : pool.GrowsTo later
  wellFormed : later.WellFormed
  spellsName : later.utf8Matches indices.1 name = true
  spellsDescriptor : later.utf8Matches indices.2 descriptor = true
  room : pool.countWith {name, descriptor} ≤ maxSlots
  countWith : ∀ {texts : Finset String}, {name, descriptor} ⊆ texts →
    later.countWith texts = pool.countWith texts

/-- The member that is made of the two indices declares the two texts. -/
theorem NamesThenDescribes.declares {name descriptor : String} {indices : UInt16 × UInt16}
    {pool later : ConstantPool} (described : NamesThenDescribes name descriptor indices pool later)
    (access : UInt16) (attributes : List Attribute) :
    Member.Declares later name descriptor ⟨access, indices.1, indices.2, attributes⟩ :=
  ⟨ConstantPool.utf8_of_utf8Matches described.spellsName,
    ConstantPool.utf8_of_utf8Matches described.spellsDescriptor⟩

variable {pool : ConstantPool}

/-- Both texts are interned if they have room, and if not the pool is full. -/
theorem nameThenDescriptor_cases (wellFormed : pool.WellFormed) (name descriptor : String) :
    (∃ indices later, nameThenDescriptor name descriptor pool = (.ok indices, later) ∧
        NamesThenDescribes name descriptor indices pool later) ∨
      ∃ later, nameThenDescriptor name descriptor pool = (.error .poolOverflow, later) ∧
        pool.GrowsTo later ∧ maxSlots < pool.countWith {name, descriptor} := by
  have grown := grown_utf8 wellFormed name
  cases named : utf8 name pool with
  | mk result between =>
  rw [named] at grown
  cases result with
  | error fault =>
      obtain ⟨rfl, rfl, tooMany⟩ := utf8_eq_error named
      refine .inr ⟨between, ?_, grown.1, tooMany (by simp)⟩
      rw [nameThenDescriptor, Effect.bind_apply, named]
  | ok nameIndex =>
      obtain ⟨spellsName, small, sameCount⟩ := countWith_utf8 named
      have grownFurther := grown_utf8 grown.2 descriptor
      cases described : utf8 descriptor between with
      | mk result later =>
      rw [described] at grownFurther
      have grows := grown.1.trans grownFurther.1
      cases result with
      | error fault =>
          obtain ⟨rfl, -, tooMany⟩ := utf8_eq_error described
          refine .inr ⟨later, ?_, grows, ?_⟩
          · rw [nameThenDescriptor, Effect.bind_apply, named]
            dsimp only
            rw [Effect.bind_apply, described]
          · rw [← sameCount (by simp)]
            exact tooMany (by simp)
      | ok descriptorIndex =>
          obtain ⟨spellsDescriptor, smallLater, sameCountLater⟩ := countWith_utf8 described
          have conserved {texts : Finset String} (inside : {name, descriptor} ⊆ texts) :
              later.countWith texts = pool.countWith texts := by
            rw [sameCountLater (inside (by simp)), sameCount (inside (by simp))]
          have spells : ∀ text ∈ ({name, descriptor} : Finset String), later.Spells text := by
            intro text member
            rcases Finset.mem_insert.mp member with rfl | member
            · exact grownFurther.1.spells spellsName
            · rwa [Finset.mem_singleton.mp member]
          refine .inl ⟨(nameIndex, descriptorIndex), later, ?_, grows, grownFurther.2,
            grownFurther.1.utf8Matches (utf8Matches_of_utf8 wellFormed named),
            utf8Matches_of_utf8 grown.2 described, ?_, conserved⟩
          · rw [nameThenDescriptor, Effect.bind_apply, named]
            dsimp only
            rw [Effect.bind_apply, described]
            rfl
          · rw [← conserved (Finset.Subset.refl _), ConstantPool.countWith_of_spells spells]
            exact smallLater (small wellFormed.count_le)

end Interning

/-! ### What a call makes of a class -/

namespace ClassFile

/-- The class is as it was, but for constants that were interned. -/
structure OnlyInterned (file next : ClassFile) : Prop where
  pool : file.pool.GrowsTo next.pool
  rest : next = { file with pool := next.pool }

/-- Constants were interned, and one field was added behind the others. -/
structure GainsField (file next : ClassFile) (field : Member) : Prop where
  pool : file.pool.GrowsTo next.pool
  rest : next = { file with pool := next.pool, fields := file.fields ++ [field] }

/-- Constants were interned, and one method was added behind the others. -/
structure GainsMethod (file next : ClassFile) (method : Member) : Prop where
  pool : file.pool.GrowsTo next.pool
  rest : next = { file with pool := next.pool, methods := file.methods ++ [method] }

section Built

variable (file : ClassFile) (access : UInt16) (name descriptor : String)

/-- What comes of adding a field. If name and descriptor have room in the pool it is one
field, at the index that the call yields; if not the class is as it was. -/
def FieldBuilt : Except ClassFileError Nat × ClassFile → Prop
  | (.ok index, next) =>
    file.pool.countWith {name, descriptor} ≤ maxSlots ∧ index = file.fields.length ∧
      ∃ field, file.GainsField next field ∧ field.access = access ∧
        field.Declares next.pool name descriptor ∧ field.attributes = []
  | (.error fault, next) =>
    maxSlots < file.pool.countWith {name, descriptor} ∧ fault = .poolOverflow ∧
      file.OnlyInterned next

/-- The texts that a method needs in the pool. -/
def textsOfMethod (code : Option MethodCode) : Finset String :=
  match code with
  | some _ => {name, descriptor, MethodCode.attributeName}
  | none => {name, descriptor}

/-- What comes of adding a method. If all of its texts have room in the pool it is one
method, at the index that the call yields, whose code is the given one if that fits its
format. If not even name and descriptor have room the class is as it was. In between, where
only the name of the code attribute has none, the call fails and the method is there. -/
def MethodBuilt (code : Option MethodCode) : Except ClassFileError Nat × ClassFile → Prop
  | (.ok index, next) =>
    file.pool.countWith (textsOfMethod name descriptor code) ≤ maxSlots ∧
      index = file.methods.length ∧
      ∃ method, file.GainsMethod next method ∧ method.access = access ∧
        method.Declares next.pool name descriptor ∧
        (next.methodCode index = .ok code ↔ ∀ body ∈ code, body.Fits)
  | (.error fault, next) =>
    maxSlots < file.pool.countWith (textsOfMethod name descriptor code) ∧
      fault = .poolOverflow ∧
      (maxSlots < file.pool.countWith {name, descriptor} ∧ file.OnlyInterned next ∨
        file.pool.countWith {name, descriptor} ≤ maxSlots ∧
          ∃ method, file.GainsMethod next method ∧ method.access = access ∧
            method.Declares next.pool name descriptor ∧ method.attributes = [])

variable {file access name descriptor}

theorem subset_textsOfMethod (code : Option MethodCode) :
    {name, descriptor} ⊆ textsOfMethod name descriptor code := by
  cases code <;> simp [textsOfMethod, Finset.subset_iff]

/-- Once the name of the code attribute is in the pool as well, all texts of the method are. -/
theorem spells_textsOfMethod {indices : UInt16 × UInt16} {pool later last : ConstantPool}
    (described : Interning.NamesThenDescribes name descriptor indices pool later)
    (grows : later.GrowsTo last) (spellsCode : last.Spells MethodCode.attributeName)
    (code : Option MethodCode) : ∀ text ∈ textsOfMethod name descriptor code, last.Spells text := by
  intro text member
  have oneOf : text = name ∨ text = descriptor ∨ text = MethodCode.attributeName := by
    cases code <;> simp only [textsOfMethod, Finset.mem_insert, Finset.mem_singleton] at member <;>
      tauto
  rcases oneOf with rfl | rfl | rfl
  · exact grows.spells (ConstantPool.spells_of_utf8Matches described.spellsName)
  · exact grows.spells (ConstantPool.spells_of_utf8Matches described.spellsDescriptor)
  · exact spellsCode

/-- With room for its texts a field is added. -/
theorem FieldBuilt.added {result : Except ClassFileError Nat × ClassFile}
    (built : FieldBuilt file access name descriptor result)
    (room : file.pool.countWith {name, descriptor} ≤ maxSlots) :
    result.1 = .ok file.fields.length := by
  rcases result with ⟨fault | index, next⟩
  · exact absurd built.1 (Nat.not_lt.mpr room)
  · rw [built.2.1]

/-- With room for name and descriptor but not for the third text, a method is refused and
there all the same. -/
theorem MethodBuilt.leftBehind {code : Option MethodCode}
    {result : Except ClassFileError Nat × ClassFile}
    (built : MethodBuilt file access name descriptor code result)
    (room : file.pool.countWith {name, descriptor} ≤ maxSlots)
    (tooMany : maxSlots < file.pool.countWith (textsOfMethod name descriptor code)) :
    result.1 = .error .poolOverflow ∧ ∃ method, file.GainsMethod result.2 method := by
  rcases result with ⟨fault | index, next⟩
  · obtain ⟨-, rfl, ⟨noRoom, -⟩ | ⟨-, method, gained, -⟩⟩ := built
    · exact absurd noRoom (Nat.not_lt.mpr room)
    · exact ⟨rfl, method, gained⟩
  · exact absurd built.1 (Nat.not_le.mpr tooMany)

end Built

end ClassFile

namespace ClassEdit

open ClassFile

variable {file : ClassFile} {access : UInt16} {name descriptor : String}

/-- Interning in two steps is two steps. -/
theorem interned_bind {α β : Type} (first : Interning α) (next : α → Interning β) :
    interned (first >>= next) = interned first >>= fun value => interned (next value) := by
  funext file
  rw [Effect.bind_apply, interned, interned, Effect.bind_apply]
  rcases first file.pool with ⟨_ | value, between⟩ <;> rfl

/-- Adding a field is interning its name and descriptor and then appending it. -/
theorem addField_eq (access : UInt16) (name descriptor : String) :
    addField access name descriptor = (do
      let indices ← interned (Interning.nameThenDescriptor name descriptor)
      modifyGet fun file => (file.fields.length, { file with
        fields := file.fields ++ [⟨access, indices.1, indices.2, []⟩] })) := by
  simp only [Interning.nameThenDescriptor, interned_bind, bind_assoc]
  rfl

/-- Adding a method is interning its name and descriptor, appending it, and then giving it
the code. -/
theorem addMethod_eq (access : UInt16) (name descriptor : String) (code : Option MethodCode) :
    addMethod access name descriptor code = (do
      let indices ← interned (Interning.nameThenDescriptor name descriptor)
      let index ← modifyGet fun file => (file.methods.length, { file with
        methods := file.methods ++ [⟨access, indices.1, indices.2, []⟩] })
      match code with
      | some body => setMethodCode index body
      | none => pure ()
      return index) := by
  simp only [Interning.nameThenDescriptor, interned_bind, bind_assoc]
  rfl

/-- The last method, which has no attributes, gets the code as its only one, if there is
room for the name. -/
theorem setMethodCode_last (file : ClassFile) (access nameIndex descriptorIndex : UInt16)
    (body : MethodCode) :
    setMethodCode file.methods.length body
        { file with methods := file.methods ++ [⟨access, nameIndex, descriptorIndex, []⟩] } =
      match Interning.utf8 MethodCode.attributeName file.pool with
      | (.ok codeIndex, pool) => (.ok (), { file with
          pool
          methods := file.methods ++
            [⟨access, nameIndex, descriptorIndex, [⟨codeIndex, body.bytes⟩]⟩] })
      | (.error fault, pool) => (.error fault, { file with
          pool
          methods := file.methods ++ [⟨access, nameIndex, descriptorIndex, []⟩] }) := by
  rw [setMethodCode, Effect.bind_apply, interned]
  rcases Interning.utf8 MethodCode.attributeName file.pool with ⟨_ | codeIndex, pool⟩
  · rfl
  · simp [changeMethod, Member.replaceAttribute]

/-- The code of the last method is what its only attribute holds. -/
theorem methodCode_last {file : ClassFile} {method : Member} {codeIndex : UInt16}
    {body : MethodCode} (named : file.pool.utf8Matches codeIndex MethodCode.attributeName = true)
    (attributes : method.attributes = [⟨codeIndex, body.bytes⟩]) :
    ({ file with methods := file.methods ++ [method] } : ClassFile).methodCode
        file.methods.length = .ok (some body) ↔ body.Fits := by
  have last : (file.methods ++ [method])[file.methods.length]? = some method := by simp
  have only : method.SplitsAt file.pool MethodCode.attributeName [] ⟨codeIndex, body.bytes⟩ [] :=
    ⟨attributes, named, by simp⟩
  have found := only.attribute?_eq
  rw [methodCode_eq_ok_iff]
  simp only [last, Option.some.injEq, exists_eq_left', Member.code?_eq_some_iff, found, true_and]

/-- A field is added if its name and descriptor have room, and nothing else happens. -/
theorem fieldBuilt_addField (wellFormed : file.pool.WellFormed) (access : UInt16)
    (name descriptor : String) :
    FieldBuilt file access name descriptor (addField access name descriptor file) := by
  rw [addField_eq, Effect.bind_apply, interned]
  rcases Interning.nameThenDescriptor_cases wellFormed name descriptor with
    ⟨indices, later, success, described⟩ | ⟨later, refused, grows, tooMany⟩
  · rw [success]
    exact ⟨described.room, rfl, ⟨access, indices.1, indices.2, []⟩, ⟨described.grows, rfl⟩, rfl,
      described.declares access [], rfl⟩
  · rw [refused]
    exact ⟨tooMany, rfl, grows, rfl⟩

/-- With name and descriptor in the pool, the method is there already, and what remains to
be seen is whether the name of the code attribute has room. -/
theorem methodBuilt_setMethodCode {indices : UInt16 × UInt16} {later : ConstantPool}
    (described : Interning.NamesThenDescribes name descriptor indices file.pool later)
    (body : MethodCode) :
    MethodBuilt file access name descriptor (some body)
      ((setMethodCode file.methods.length body >>= fun _ => pure file.methods.length)
        { file with pool := later, methods := file.methods ++
          [⟨access, indices.1, indices.2, []⟩] }) := by
  have inside : {name, descriptor} ⊆ textsOfMethod name descriptor (some body) :=
    subset_textsOfMethod (some body)
  have needed : MethodCode.attributeName ∈ textsOfMethod name descriptor (some body) := by
    simp [textsOfMethod]
  have grown := Interning.grown_utf8 described.wellFormed MethodCode.attributeName
  rw [Effect.bind_apply, setMethodCode_last { file with pool := later }]
  dsimp only
  cases named : Interning.utf8 MethodCode.attributeName later with
  | mk result last =>
  rw [named] at grown
  cases result with
  | error fault =>
      obtain ⟨rfl, rfl, tooMany⟩ := Interning.utf8_eq_error named
      have unroomy := tooMany needed
      rw [described.countWith inside] at unroomy
      exact ⟨unroomy, rfl, .inr ⟨described.room, ⟨access, indices.1, indices.2, []⟩,
        ⟨described.grows, rfl⟩, rfl, described.declares access [], rfl⟩⟩
  | ok codeIndex =>
      obtain ⟨spellsCode, small, sameCount⟩ := Interning.countWith_utf8 named
      have matchesCode := Interning.utf8Matches_of_utf8 described.wellFormed named
      have declares := (described.declares access [⟨codeIndex, body.bytes⟩]).of_growsTo grown.1
      have spells := spells_textsOfMethod described grown.1 spellsCode (some body)
      have coded : ({ file with pool := last, methods := file.methods ++
          [⟨access, indices.1, indices.2, [⟨codeIndex, body.bytes⟩]⟩] } : ClassFile).methodCode
            file.methods.length = .ok (some body) ↔ body.Fits :=
        @methodCode_last { file with pool := last } _ _ _ matchesCode rfl
      refine ⟨?_, rfl, ⟨access, indices.1, indices.2, [⟨codeIndex, body.bytes⟩]⟩,
        ⟨described.grows.trans grown.1, rfl⟩, rfl, declares, ?_⟩
      · rw [← described.countWith inside, ← sameCount needed,
          ConstantPool.countWith_of_spells spells]
        exact small described.wellFormed.count_le
      · simpa using coded

/-- A method is added if all of its texts have room. -/
theorem methodBuilt_addMethod (wellFormed : file.pool.WellFormed) (access : UInt16)
    (name descriptor : String) (code : Option MethodCode) :
    MethodBuilt file access name descriptor code
      (addMethod access name descriptor code file) := by
  rw [addMethod_eq, Effect.bind_apply, interned]
  rcases Interning.nameThenDescriptor_cases wellFormed name descriptor with
    ⟨indices, later, success, described⟩ | ⟨later, refused, grows, tooMany⟩
  · rw [success]
    cases code with
    | none =>
        refine ⟨described.room, rfl, ⟨access, indices.1, indices.2, []⟩,
          ⟨described.grows, rfl⟩, rfl, described.declares access [], iff_of_true ?_ (by simp)⟩
        exact methodCode_eq_ok_iff.mpr ⟨⟨access, indices.1, indices.2, []⟩, by simp, rfl⟩
    | some body => exact methodBuilt_setMethodCode described body
  · rw [refused]
    have tooManyMore :=
      Nat.lt_of_lt_of_le tooMany (ConstantPool.countWith_mono (subset_textsOfMethod code))
    exact ⟨tooManyMore, rfl, .inl ⟨tooMany, grows, rfl⟩⟩

/-- In a class that was read, or started afresh and edited, only the pool can refuse a
member. A refused field leaves the fields and methods as they were, and so does a method
whose name or descriptor has no room; only where both have room and the name of the code
attribute has none, the method is left behind. What is added is one member at the index
that the call yields, and the code of a method is what it was given. -/
theorem builds_of_reachable (reachable : file.pool.Reachable) (access : UInt16)
    (name descriptor : String) :
    FieldBuilt file access name descriptor (addField access name descriptor file) ∧
      ∀ code, MethodBuilt file access name descriptor code
        (addMethod access name descriptor code file) :=
  ⟨fieldBuilt_addField reachable.wellFormed access name descriptor,
    methodBuilt_addMethod reachable.wellFormed access name descriptor⟩

/-- Two texts, and integers in all the slots that are left. -/
def fullConstants : List Constant :=
  .utf8 (Text.ModifiedUtf8.encode "run") :: .utf8 (Text.ModifiedUtf8.encode "()V") ::
    List.replicate 65532 (.integer 0)

/-- A class without members, whose pool has no slot left. -/
def fullSample : ClassFile where
  minorVersion := 0
  majorVersion := 52
  pool := ⟨(none :: ConstantPool.slotsOfAll fullConstants).toArray⟩
  access := Access.publicFlag ||| Access.superFlag
  thisClass := 0
  superClass := 0
  interfaces := []
  fields := []
  methods := []
  attributes := []

theorem laidOut_fullSample :
    fullSample.pool.slots.toList = none :: ConstantPool.slotsOfAll fullConstants := rfl

theorem count_fullSample : fullSample.pool.count = maxSlots := by
  have integers : ConstantPool.slotsOfAll (List.replicate 65532 (.integer 0)) =
      List.replicate 65532 (some (.integer 0)) := by
    have narrow : ConstantPool.slotsOf (.integer 0) = [some (.integer 0)] := rfl
    rw [ConstantPool.slotsOfAll, List.flatMap_replicate, narrow, List.flatten_replicate_singleton]
  have text (bytes : Bytes) : (ConstantPool.slotsOf (.utf8 bytes)).length = 1 := rfl
  rw [ConstantPool.count_eq_length, laidOut_fullSample, fullConstants,
    ConstantPool.slotsOfAll_cons, ConstantPool.slotsOfAll_cons, integers]
  rw [List.length_cons, List.length_append, List.length_append, text, text, List.length_replicate]
  rfl

theorem sound_fullSample : fullSample.pool.Sound := by
  refine ⟨⟨⟨_, laidOut_fullSample⟩, count_fullSample.le⟩, ?_⟩
  rw [ConstantPool.textsFit_iff laidOut_fullSample, fullConstants]
  simp only [List.forall_mem_cons, List.forall_mem_replicate]
  have runFits : Text.Fits "run" := by decide
  have voidFits : Text.Fits "()V" := by decide
  exact ⟨runFits, voidFits, .inr trivial⟩

theorem spells_fullSample {text : String} :
    fullSample.pool.Spells text ↔ text = "run" ∨ text = "()V" := by
  have sameText (other : String) : Constant.utf8 (Text.ModifiedUtf8.encode text) =
      .utf8 (Text.ModifiedUtf8.encode other) ↔ text = other := by
    rw [Constant.utf8.injEq, Text.ModifiedUtf8.encode_injective.eq_iff]
  rw [ConstantPool.Spells, laidOut_fullSample, List.mem_cons, ConstantPool.some_mem_slotsOfAll]
  simp only [fullConstants, List.mem_cons, List.mem_replicate, sameText, reduceCtorEq, and_false,
    or_false, false_or]

/-- Two texts are there, and for a third one there is no room. -/
theorem countWith_fullSample :
    fullSample.pool.countWith {"run", "()V"} ≤ maxSlots ∧
      maxSlots < fullSample.pool.countWith {"run", "()V", MethodCode.attributeName} := by
  rw [← count_fullSample]
  constructor
  · rw [ConstantPool.countWith_of_spells (by simp [spells_fullSample])]
  · refine ConstantPool.lt_countWith (by simp : MethodCode.attributeName ∈ _) ?_
    rw [spells_fullSample]
    decide

/-- A body that does nothing. -/
def returnBody : MethodCode where
  maxStack := 0
  maxLocals := 1
  code := [0xb1]
  exceptions := []
  attributes := []

/-- In that class a field is added under the two texts, and a method with code is refused. -/
theorem builds_of_reachable_fullSample :
    fullSample.pool.Reachable ∧
      (addField Access.staticFlag "run" "()V" fullSample).1 = .ok 0 ∧
      (addMethod Access.staticFlag "run" "()V" (some returnBody) fullSample).1 =
        .error .poolOverflow := by
  have reachable := sound_fullSample.reachable
  obtain ⟨field, method⟩ := builds_of_reachable reachable Access.staticFlag "run" "()V"
  obtain ⟨room, tooMany⟩ := countWith_fullSample
  exact ⟨reachable, field.added room, ((method (some returnBody)).leftBehind room tooMany).1⟩

/-- The class had no method, and after the refusal it has one. -/
theorem addMethod_fullSample :
    fullSample.methods = [] ∧
      (addMethod Access.staticFlag "run" "()V" (some returnBody) fullSample).1 =
        .error .poolOverflow ∧
      (addMethod Access.staticFlag "run" "()V" (some returnBody) fullSample).2.methods.length =
        1 := by
  have built := methodBuilt_addMethod sound_fullSample.wellFormed
    Access.staticFlag "run" "()V" (some returnBody)
  obtain ⟨room, tooMany⟩ := countWith_fullSample
  obtain ⟨refused, method, gained⟩ := built.leftBehind room tooMany
  refine ⟨rfl, refused, ?_⟩
  rw [gained.rest]
  rfl

end ClassEdit

end Lookout
