/-
# The pools that can come about

A pool starts out empty, or it is read from a class file. From then on nothing but
interning changes it, and what an attempt adds before it fails stays. Every pool that
comes about so has the form that a pool has in a class file: what is read has it, and
no request breaks it. Only the length of its texts is not looked after.
-/

import Lookout.Proofs.ConstantPool.Interning

namespace Lookout

/-- What a pool can be asked to have an index for. -/
inductive InternRequest where
  | utf8 (text : String)
  | classInfo (name : String)
  | string (text : String)
  | nameAndType (name descriptor : String)
  | fieldRef (member : MemberReference)
  | methodRef (member : MemberReference)
  | interfaceMethodRef (member : MemberReference)

namespace InternRequest

/-- The index that is asked for, interned if need be. -/
def serve : InternRequest → Interning UInt16
  | .utf8 text => Interning.utf8 text
  | .classInfo name => Interning.classInfo name
  | .string text => Interning.string text
  | .nameAndType name descriptor => Interning.nameAndType name descriptor
  | .fieldRef member => Interning.fieldRef member
  | .methodRef member => Interning.methodRef member
  | .interfaceMethodRef member => Interning.interfaceMethodRef member

/-- Whether the texts in the request can be written as constants. -/
def Fits : InternRequest → Prop
  | .utf8 text | .classInfo text | .string text => Text.Fits text
  | .nameAndType name descriptor => Text.Fits name ∧ Text.Fits descriptor
  | .fieldRef member | .methodRef member | .interfaceMethodRef member => member.Fits

instance (request : InternRequest) : Decidable request.Fits :=
  match request with
  | .utf8 text | .classInfo text | .string text => inferInstanceAs (Decidable (Text.Fits text))
  | .nameAndType name descriptor =>
      inferInstanceAs (Decidable (Text.Fits name ∧ Text.Fits descriptor))
  | .fieldRef member | .methodRef member | .interfaceMethodRef member =>
      inferInstanceAs (Decidable member.Fits)

section Serve

variable {pool later : ConstantPool} {index : UInt16}

/-- Whether it is answered or not, a request only adds to the pool. -/
theorem grown_serve (wellFormed : pool.WellFormed) (request : InternRequest) :
    pool.GrowsTo (request.serve pool).2 ∧ (request.serve pool).2.WellFormed := by
  cases request with
  | utf8 text => exact Interning.grown_utf8 wellFormed text
  | classInfo name => exact Interning.grown_classInfo wellFormed name
  | string text => exact Interning.grown_string wellFormed text
  | nameAndType name descriptor => exact Interning.grown_nameAndType wellFormed name descriptor
  | fieldRef member | methodRef member | interfaceMethodRef member =>
      exact Interning.grown_reference wellFormed _ member

/-- A request whose texts can be written adds no text that cannot. -/
theorem textsFit_serve (fit : pool.TextsFit) {request : InternRequest} (fits : request.Fits) :
    (request.serve pool).2.TextsFit := by
  have keeps := Interning.keeps_textsFit
  have noText := Interning.fits_of_not_text
  cases request with
  | utf8 text => exact Interning.keeps_utf8 _ keeps fits pool fit
  | classInfo name => exact Interning.keeps_classInfo _ keeps noText fits pool fit
  | string text => exact Interning.keeps_string _ keeps noText fits pool fit
  | nameAndType name descriptor =>
      exact Interning.keeps_nameAndType _ keeps noText fits.1 fits.2 pool fit
  | fieldRef member | methodRef member | interfaceMethodRef member =>
      refine Interning.textsFit_reference fit ?_ fits
      exact fun _ _ => trivial

/-- Once a request is answered, its texts are in the pool. -/
theorem fits_of_serve (wellFormed : pool.WellFormed) {request : InternRequest}
    (answered : request.serve pool = (.ok index, later)) (fit : later.TextsFit) :
    request.Fits := by
  cases request with
  | utf8 text => exact ConstantPool.fits_of_utf8 fit (Interning.utf8_of_utf8 wellFormed answered)
  | classInfo name =>
      exact ConstantPool.fits_of_className fit
        (Interning.className_of_classInfo wellFormed answered)
  | string text =>
      exact ConstantPool.fits_of_stringText? fit
        (Interning.stringText?_of_string wellFormed answered)
  | nameAndType name descriptor =>
      obtain ⟨_, _, -, nameThere, descriptorThere⟩ :=
        Interning.get_of_nameAndType wellFormed answered
      exact ⟨ConstantPool.fits_of_utf8 fit nameThere, ConstantPool.fits_of_utf8 fit descriptorThere⟩
  | fieldRef member =>
      exact ConstantPool.fits_of_memberReference fit
        (Interning.memberReference_of_reference wellFormed (.inl rfl) answered)
  | methodRef member =>
      exact ConstantPool.fits_of_memberReference fit
        (Interning.memberReference_of_reference wellFormed (.inr (.inl rfl)) answered)
  | interfaceMethodRef member =>
      exact ConstantPool.fits_of_memberReference fit
        (Interning.memberReference_of_reference wellFormed (.inr (.inr rfl)) answered)

end Serve

end InternRequest

namespace ConstantPool

/-- The pool comes about by requests, from the empty pool or from one that was read. -/
inductive Reachable : ConstantPool → Prop where
  | empty : Reachable .empty
  | read {pool : ConstantPool} {cursor next : Cursor} :
      ConstantPool.read cursor = .ok (pool, next) → Reachable pool
  | serve {pool : ConstantPool} (request : InternRequest) :
      Reachable pool → Reachable (request.serve pool).2

theorem wellFormed_empty : empty.WellFormed := ⟨⟨[], rfl⟩, by decide⟩

theorem wellFormed_of_read {pool : ConstantPool} {cursor next : Cursor}
    (success : read cursor = .ok (pool, next)) : pool.WellFormed := by
  obtain ⟨_, spelled, -, -⟩ := accepts_read.consumed success
  exact spelled.1

/-- A pool that can be written comes about by reading what was written. -/
theorem Sound.reachable {pool : ConstantPool} (sound : pool.Sound) : pool.Reachable :=
  .read (accepts_read.reads ⟨sound.wellFormed, sound.textsFit, .inl rfl⟩ 0 [])

theorem Reachable.wellFormed {pool : ConstantPool} (reachable : pool.Reachable) :
    pool.WellFormed := by
  induction reachable with
  | empty => exact wellFormed_empty
  | read success => exact wellFormed_of_read success
  | serve request _ ih => exact (request.grown_serve ih).2

end ConstantPool

end Lookout
