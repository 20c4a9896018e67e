/-
# What assembly emits

An operation that succeeds appends the bytes of its instruction, and leaves a
pool that has grown, is as sound as before, and holds what the operands refer to.
Sequences emit what their parts emit in a row, and because pools only grow, what
the first part refers to is still there when the last one is done.
-/

import Lookout.Proofs.Fragment.Calls

namespace Lookout

namespace Assembly

open Effect ConstantPool

/-- Whenever the operation succeeds on a sound pool, it appends code that is as
described, given any pool that has grown from the one it leaves. -/
def Emits (action : Assembly Unit) (describes : ConstantPool → Bytes → Prop) : Prop :=
  ∀ assembler next : Assembler, assembler.pool.Sound → action assembler = (.ok (), next) →
    assembler.pool.GrowsTo next.pool ∧ next.pool.Sound ∧
      ∃ code, next.code.toList = assembler.code.toList ++ code ∧
        ∀ pool, next.pool.GrowsTo pool → describes pool code

/-- A sequence emits the code of its parts in a row. -/
theorem Emits.bind {first second : Assembly Unit}
    {describes later whole : ConstantPool → Bytes → Prop}
    (emits : Emits first describes) (emitsLater : Emits second later)
    (combine : ∀ pool front back,
      describes pool front → later pool back → whole pool (front ++ back)) :
    Emits (first >>= fun _ => second) whole := by
  intro assembler next sound success
  obtain ⟨_, between, firstSuccess, secondSuccess⟩ := bind_eq_ok_iff.mp success
  obtain ⟨grows, between_sound, front, frontCode, described⟩ := emits _ _ sound firstSuccess
  obtain ⟨growsLater, next_sound, back, backCode, describedLater⟩ :=
    emitsLater _ _ between_sound secondSuccess
  refine ⟨grows.trans growsLater, next_sound, front ++ back, ?_, fun pool beyond => ?_⟩
  · rw [backCode, frontCode, List.append_assoc]
  · exact combine pool front back (described pool (growsLater.trans beyond))
      (describedLater pool beyond)

theorem Emits.weaken {action : Assembly Unit} {describes weaker : ConstantPool → Bytes → Prop}
    (emits : Emits action describes)
    (weaken : ∀ pool code, describes pool code → weaker pool code) :
    Emits action weaker := by
  intro assembler next sound success
  obtain ⟨grows, next_sound, code, sameCode, described⟩ := emits _ _ sound success
  exact ⟨grows, next_sound, code, sameCode,
    fun pool beyond => weaken pool code (described pool beyond)⟩

/-! ### Single operations -/

/-- A call emits the instruction that it asks for. -/
theorem emits_perform (call : AssemblyCall)
    (fits : ∀ request, call.request? = some request → request.Fits) :
    Emits call.perform fun pool code => call.Describes pool code := by
  intro assembler next sound success
  have grown := call.grown_perform sound.wellFormed
  have textsFit : (call.perform assembler).2.pool.TextsFit := by
    rcases call.pool_perform assembler with same | ⟨request, asked, same⟩ <;> rw [same]
    · exact sound.textsFit
    · exact InternRequest.textsFit_serve sound.textsFit (fits request asked)
  rw [success] at grown textsFit
  obtain ⟨code, sameCode, described⟩ :=
    (AssemblyCall.perform_eq_ok_iff.mp success).describes sound.wellFormed
  exact ⟨grown.1, ⟨grown.2, textsFit⟩, code, by rw [sameCode, Array.toList_appendList], described⟩

/-- Pushing a local variable. -/
theorem emits_aload (index : UInt16) :
    Emits (aload index) fun _ code => code = aloadBytes index :=
  emits_perform (.aload index) nofun

/-- Pushing a string. -/
theorem emits_ldc {text : String} (fits : Text.Fits text) :
    Emits (ldc text) fun pool code =>
      ∃ index, pool.stringText? index = some text ∧ code = ldcBytes index := by
  refine emits_perform (.ldc text) ?_
  rintro _ ⟨⟩
  exact fits

/-- The code is an instruction that refers to the member. -/
def RefersTo (opcode : UInt8) (member : MemberReference) (pool : ConstantPool) (code : Bytes) :
    Prop :=
  ∃ index, pool.memberReference index = .ok member ∧ code = withOperand opcode index

section Members

variable {member : MemberReference} (fits : member.Fits)

include fits

/-- The index of the member is all that stands behind the opcode, unless a method of an
interface is called. -/
theorem emits_refer (use : MemberUse)
    (plain : ∀ index effect, use.bytes index effect = withOperand use.opcode index) :
    Emits (AssemblyCall.refer use member).perform (RefersTo use.opcode member) := by
  refine Emits.weaken (emits_perform _ ?_) ?_
  · rintro _ ⟨⟩
    cases use <;> exact fits
  · rintro pool _ ⟨index, effect, found, rfl⟩
    exact ⟨index, found, plain index effect⟩

/-- Pushing a static field. -/
theorem emits_getstatic : Emits (getstatic member) (RefersTo Opcode.getstatic member) :=
  emits_refer fits .getstatic fun _ _ => rfl

/-- Reading a field of an object. -/
theorem emits_getfield : Emits (getfield member) (RefersTo Opcode.getfield member) :=
  emits_refer fits .getfield fun _ _ => rfl

/-- Calling a static method. -/
theorem emits_invokestatic : Emits (invokestatic member) (RefersTo Opcode.invokestatic member) :=
  emits_refer fits .invokestatic fun _ _ => rfl

/-- Calling a method of an object. -/
theorem emits_invokevirtual : Emits (invokevirtual member) (RefersTo Opcode.invokevirtual member) :=
  emits_refer fits .invokevirtual fun _ _ => rfl

end Members

end Assembly

/-! ### Finished fragments -/

namespace Assembler

theorem padding_lt (assembler : Assembler) : assembler.padding < 4 := by
  unfold padding
  omega

theorem finish_eq_ok_iff {assembler : Assembler} {fragment : Fragment} :
    assembler.finish = .ok fragment ↔ assembler.depth = 0 ∧
      fragment = ⟨assembler.code.toList ++ List.replicate assembler.padding Opcode.nop,
        assembler.maxStack, assembler.maxLocals⟩ := by
  unfold finish
  split
  · rename_i balanced
    rw [Except.ok.injEq, eq_comm]
    exact ⟨fun same => ⟨balanced, same⟩, And.right⟩
  · rename_i unbalanced
    constructor
    · intro impossible
      cases impossible
    · rintro ⟨balanced, -⟩
      exact absurd balanced unbalanced

theorem length_of_finish {assembler : Assembler} {fragment : Fragment}
    (finished : assembler.finish = .ok fragment) : fragment.length % 4 = 0 := by
  obtain ⟨-, rfl⟩ := finish_eq_ok_iff.mp finished
  rw [Fragment.length, List.length_append, List.length_replicate, Array.length_toList, padding]
  omega

end Assembler

end Lookout
