/-
# Reading back the code of a method

Code is put into the first attribute with the right name, or into a new one behind all
others. The name is looked for in the pool as it is with that name in it: an attribute whose
name led nowhere until then is called so from now on, and if it is the first one, it takes
the code. Reading searches the same pool in the same order, so it finds what was written;
and writing once more finds the same attribute again.
-/

import Lookout.Proofs.ClassFile.Edit
import Lookout.Proofs.ConstantPool.Reachable
import Lookout.Proofs.ConstantPool.Room
import Lookout.Proofs.ConstantPool.Settled

namespace Lookout

/-! ### One member -/

namespace Member

variable {pool : ConstantPool} {name : String} {member : Member} {item : Attribute}

theorem replaceAttribute_of_lacks (lacks : member.hasAttribute pool name = false)
    (item : Attribute) : member.replaceAttribute pool name item = member.appendAttribute item := by
  rcases member.replaceAttribute_cases pool name item with ⟨_, _, _, splits, -⟩ | ⟨-, appended⟩
  · have has : member.hasAttribute pool name = true := by
      rw [hasAttribute, splits.attribute?_eq]
      rfl
    rw [lacks] at has
    cases has
  · exact appended

/-- Behind attributes that are called otherwise, an attribute with the name is the first. -/
theorem splitsAt_appendAttribute (lacks : member.hasAttribute pool name = false)
    (named : item.isNamed pool name = true) :
    (member.appendAttribute item).SplitsAt pool name member.attributes item [] where
  attributes := rfl
  named := named
  first other there := Bool.eq_false_iff.mpr fun alsoNamed =>
    Bool.eq_false_iff.mp lacks (hasAttribute_iff.mpr ⟨other, there, alsoNamed⟩)

/-- An attribute with the name holds what was put there last. -/
theorem attribute?_replaceAttribute (named : item.isNamed pool name = true) (member : Member) :
    ∃ found, (member.replaceAttribute pool name item).attribute? pool name = some found ∧
      found.info = item.info := by
  rcases member.replaceAttribute_cases pool name item with
    ⟨front, old, back, splits, replaced⟩ | ⟨lacks, appended⟩
  · rw [replaced]
    exact ⟨_, (splits.withInfo (.refl pool) rfl).attribute?_eq, rfl⟩
  · rw [appended]
    exact ⟨_, (splitsAt_appendAttribute lacks named).attribute?_eq, rfl⟩

/-- Of two bodies that are put into the same attribute only the second one is left. -/
theorem replaceAttribute_replaceAttribute (named : item.isNamed pool name = true)
    (member : Member) (info : Bytes) :
    (member.replaceAttribute pool name item).replaceAttribute pool name { item with info } =
      member.replaceAttribute pool name { item with info } := by
  rcases member.replaceAttribute_cases pool name item with
    ⟨front, old, back, splits, replaced⟩ | ⟨lacks, appended⟩
  · have splitsReplaced : (member.replaceAttribute pool name item).SplitsAt pool name front
        { old with info := item.info } back := by
      rw [replaced]
      exact splits.withInfo (.refl pool) rfl
    rw [splitsReplaced.replaceAttribute_eq, replaced, splits.replaceAttribute_eq]
  · have splitsAppended := splitsAt_appendAttribute lacks named
    rw [appended, splitsAppended.replaceAttribute_eq, replaceAttribute_of_lacks lacks]
    rfl

theorem code?_replaceAttribute {body : MethodCode} {nameIndex : UInt16}
    (named : (Attribute.mk nameIndex body.bytes).isNamed pool MethodCode.attributeName = true)
    (member : Member) :
    (member.replaceAttribute pool MethodCode.attributeName ⟨nameIndex, body.bytes⟩).code? pool =
        .ok (some body) ↔ body.Fits := by
  obtain ⟨found, there, info⟩ := attribute?_replaceAttribute named member
  simp only [code?_eq_some_iff, there, Option.some.injEq, exists_eq_left', info, true_and]

end Member

/-! ### The class -/

namespace ClassEdit

open ConstantPool (maxSlots)

/-- What a class is after the code of a method was set. -/
structure Recoded (index : Nat) (body : MethodCode) (file next : ClassFile) : Prop where
  /-- The code is read back if its lengths and counts can be written. -/
  readBack : next.methodCode index = .ok (some body) ↔ body.Fits
  rest : next = { file with pool := next.pool, methods := next.methods }
  otherMethods : ∀ other, other ≠ index → next.methods[other]? = file.methods[other]?
  constants : ∀ constantIndex constant, file.pool.get constantIndex = .ok constant →
    next.pool.get constantIndex = .ok constant
  otherCode : ∀ other method, other ≠ index → file.methods[other]? = some method →
    method.NamesInside file.pool → next.methodCode other = file.methodCode other
  /-- Code that is set afterwards leaves no trace of this one. -/
  overwritten : ∀ later, ∃ last, setMethodCode index later next = (.ok (), last) ∧
    setMethodCode index later file = (.ok (), last)

variable {file next : ClassFile} {index : Nat} {body : MethodCode}

/-- Code can be set if there is the method, and the name of its attribute is in the pool or
has room there. -/
theorem exists_setMethodCode_iff (small : file.pool.count ≤ maxSlots) :
    (∃ next, setMethodCode index body file = (.ok (), next)) ↔
      index < file.methods.length ∧ file.pool.countWith {MethodCode.attributeName} ≤ maxSlots := by
  rw [← Interning.exists_utf8_iff small]
  simp only [setMethodCode_eq_ok_iff]
  constructor
  · rintro ⟨_, nameIndex, pool, method, interned, there, -⟩
    exact ⟨(List.getElem?_eq_some_iff.mp there).1, nameIndex, pool, interned⟩
  · rintro ⟨inside, nameIndex, pool, interned⟩
    exact ⟨_, nameIndex, pool, _, interned, List.getElem?_eq_getElem inside, rfl⟩

theorem recoded_of_eq_ok (reachable : file.pool.Reachable)
    (success : setMethodCode index body file = (.ok (), next)) : Recoded index body file next := by
  obtain ⟨nameIndex, pool, method, interned, there, rfl⟩ := setMethodCode_eq_ok_iff.mp success
  have settles := Interning.settles_utf8 MethodCode.attributeName
  have grows : file.pool.GrowsTo pool := settles.grows interned
  have named : (Attribute.mk nameIndex body.bytes).isNamed pool MethodCode.attributeName = true :=
    Interning.utf8Matches_of_utf8 reachable.wellFormed interned
  have inside := (List.getElem?_eq_some_iff.mp there).1
  have edited (member : Member) : (file.methods.set index member)[index]? = some member :=
    List.getElem?_set_self inside
  constructor
  case readBack =>
    rw [ClassFile.methodCode_eq_ok_iff]
    simp only [edited, Option.some.injEq, exists_eq_left', Member.code?_replaceAttribute named]
  case rest => rfl
  case otherMethods => exact fun other different => List.getElem?_set_ne different.symm
  case constants => exact fun _ _ => grows.get_eq_ok
  case otherCode =>
    intro other member different otherThere namesInside
    rw [ClassFile.methodCode, ClassFile.methodCode, ClassFile.method, ClassFile.method,
      List.getElem?_set_ne different.symm, otherThere]
    exact Member.code?_eq_of_grows grows namesInside
  case overwritten =>
    intro later
    have lastWrite := Member.replaceAttribute_replaceAttribute named method later.bytes
    refine ⟨_, setMethodCode_eq_ok_iff.mpr ⟨nameIndex, pool, _, settles.again interned (.refl pool),
      edited _, rfl⟩, setMethodCode_eq_ok_iff.mpr ⟨nameIndex, pool, method, interned, there, ?_⟩⟩
    rw [List.set_set, lastWrite]

/-- Code can be set in a method of the class if its attribute can be named. It is then what is
read from the method, if it can be written at all. All else in the class is as it was, what
was in the pool is where it was, and methods whose attributes are all called by entries of
the pool as it was before have the code that they had. Setting other code afterwards is
setting only that. -/
theorem recoded_of_setMethodCode (reachable : file.pool.Reachable) (index : Nat)
    (body : MethodCode) :
    ((∃ next, setMethodCode index body file = (.ok (), next)) ↔
      index < file.methods.length ∧
        file.pool.countWith {MethodCode.attributeName} ≤ maxSlots) ∧
    ∀ next, setMethodCode index body file = (.ok (), next) → Recoded index body file next :=
  ⟨exists_setMethodCode_iff reachable.wellFormed.count_le,
    fun _ success => recoded_of_eq_ok reachable success⟩

/-- A class without constants. Both attributes of its first method have a name that leads
nowhere, and the one of its second method has none. -/
def danglingSample : ClassFile where
  minorVersion := 0
  majorVersion := 52
  pool := .empty
  access := Access.publicFlag
  thisClass := 0
  superClass := 0
  interfaces := []
  fields := []
  methods := [⟨0, 0, 0, [⟨1, [7]⟩, ⟨1, []⟩]⟩, ⟨0, 0, 0, [⟨0, []⟩]⟩]
  attributes := []

/-- With the first constant the two attributes come to be called what code is called, and the
first of them takes it. -/
theorem recoded_of_setMethodCode_danglingSample :
    let body : MethodCode := .plain 0 1 [0xb1]
    ∃ next, setMethodCode 0 body danglingSample = (.ok (), next) ∧
      next.methodCode 0 = .ok (some body) ∧
      next.methods = [⟨0, 0, 0, [⟨1, body.bytes⟩, ⟨1, []⟩]⟩, ⟨0, 0, 0, [⟨0, []⟩]⟩] ∧
      next.methodCode 1 = danglingSample.methodCode 1 := by
  intro body
  have reachable : danglingSample.pool.Reachable := .empty
  obtain ⟨settable, recoded⟩ := recoded_of_setMethodCode reachable 0 body
  obtain ⟨next, success⟩ := settable.mpr (by decide +kernel)
  have written := recoded next success
  have methods : (setMethodCode 0 body danglingSample).2.methods =
      [⟨0, 0, 0, [⟨1, body.bytes⟩, ⟨1, []⟩]⟩, ⟨0, 0, 0, [⟨0, []⟩]⟩] := by
    decide +kernel
  rw [success] at methods
  refine ⟨next, success, written.readBack.mpr ⟨by decide, by decide, by decide, nofun⟩, methods,
    written.otherCode 1 ⟨0, 0, 0, [⟨0, []⟩]⟩ (by decide) rfl (by decide)⟩

end ClassEdit

end Lookout
