/-
# Calls to the assembler

The operations of the assembler as data, and what each of them comes to. A call that
succeeds appends one instruction, takes its slots off the stack and puts others on it,
and leaves a pool in which the operand leads to what the call was given. A call that
fails may have added constants, and has done nothing else.

What an instruction does to the stack is a matter of numbers, which have no bound. The
assembler knows these numbers modulo 65536.
-/

import Lookout.Fragment.Assembly
import Lookout.Proofs.ConstantPool.Reachable
import Mathlib.Algebra.GroupWithZero.Nat

namespace Lookout

/-- Slots that an instruction takes off the operand stack, and slots that it then puts
on it. -/
structure StackEffect where
  taken : Nat
  put : Nat

/-- What an instruction can do with a member of a class. -/
inductive MemberUse where
  | getstatic
  | getfield
  | invokestatic
  | invokevirtual
  | invokeinterface
  deriving DecidableEq

/-- Slots taken by the arguments, without any receiver, as a number. -/
def MethodDescriptor.argumentSlots (descriptor : MethodDescriptor) : Nat :=
  (descriptor.parameters.map fun type => type.slots.toNat).sum

namespace MemberUse

def opcode : MemberUse → UInt8
  | .getstatic => Opcode.getstatic
  | .getfield => Opcode.getfield
  | .invokestatic => Opcode.invokestatic
  | .invokevirtual => Opcode.invokevirtual
  | .invokeinterface => Opcode.invokeinterface

def mnemonic : MemberUse → String
  | .getstatic => "getstatic"
  | .getfield => "getfield"
  | .invokestatic => "invokestatic"
  | .invokevirtual => "invokevirtual"
  | .invokeinterface => "invokeinterface"

/-- The slot of the object whose member it is. Static members have none. -/
def receiverSlots : MemberUse → Nat
  | .getstatic | .invokestatic => 0
  | .getfield | .invokevirtual | .invokeinterface => 1

/-- What the use of a member with this descriptor does to the stack: a field is put on
it, a method takes its arguments and puts what it returns. -/
def effect (use : MemberUse) (descriptor : String) : Except ClassFileError StackEffect :=
  match use with
  | .getstatic | .getfield =>
    (FieldType.ofText descriptor).map fun type => ⟨use.receiverSlots, type.slots.toNat⟩
  | .invokestatic | .invokevirtual | .invokeinterface =>
    (MethodDescriptor.ofText descriptor).map fun method =>
      ⟨method.argumentSlots + use.receiverSlots, method.returns.slots.toNat⟩

/-- The constant that the operand leads to. -/
def request (use : MemberUse) (member : MemberReference) : InternRequest :=
  match use with
  | .getstatic | .getfield => .fieldRef member
  | .invokestatic | .invokevirtual => .methodRef member
  | .invokeinterface => .interfaceMethodRef member

/-- The bytes of the instruction. Only a call of an interface method says again how many
slots it takes. -/
def bytes (use : MemberUse) (index : UInt16) (effect : StackEffect) : Bytes :=
  match use with
  | .invokeinterface =>
    Assembly.withOperand use.opcode index ++ [UInt8.ofNat effect.taken, 0]
  | _ => Assembly.withOperand use.opcode index

end MemberUse

/-- What an assembler can be asked to append. -/
inductive AssemblyCall where
  | nop
  | aload (index : UInt16)
  | ldc (text : String)
  | refer (use : MemberUse) (member : MemberReference)
  deriving DecidableEq

namespace AssemblyCall

/-- Append the instruction. -/
def perform : AssemblyCall → Assembly Unit
  | .nop => Assembly.nop
  | .aload index => Assembly.aload index
  | .ldc text => Assembly.ldc text
  | .refer .getstatic field => Assembly.getstatic field
  | .refer .getfield field => Assembly.getfield field
  | .refer .invokestatic method => Assembly.invokestatic method
  | .refer .invokevirtual method => Assembly.invokevirtual method
  | .refer .invokeinterface method => Assembly.invokeinterface method

end AssemblyCall

/-- Adding up words comes to the word of the sum, however large that is. -/
theorem FieldType.foldl_slots (types : List FieldType) (total : Nat) :
    types.foldl (fun total type => total + type.slots) (UInt16.ofNat total) =
      UInt16.ofNat (total + (types.map fun type => type.slots.toNat).sum) := by
  induction types generalizing total with
  | nil => rfl
  | cons type types ih =>
      have first : UInt16.ofNat total + type.slots = UInt16.ofNat (total + type.slots.toNat) := by
        rw [UInt16.ofNat_add, UInt16.ofNat_toNat]
      rw [List.foldl_cons, first, ih, List.map_cons, List.sum_cons, Nat.add_assoc]

theorem MethodDescriptor.parameterSlots_eq (descriptor : MethodDescriptor) :
    descriptor.parameterSlots = UInt16.ofNat descriptor.argumentSlots := by
  have sum := FieldType.foldl_slots descriptor.parameters 0
  rwa [Nat.zero_add] at sum

theorem MethodDescriptor.parameterSlots_succ (descriptor : MethodDescriptor) :
    descriptor.parameterSlots + 1 = UInt16.ofNat (descriptor.argumentSlots + 1) := by
  rw [parameterSlots_eq, UInt16.ofNat_add]
  rfl

namespace Assembly

open Effect

/-- All uses of members come to this. -/
def refer (use : MemberUse) (member : MemberReference) : Assembly Unit := do
  let effect ← ofExcept (use.effect member.descriptor)
  let index ← interned (use.request member).serve
  pop (UInt16.ofNat effect.taken) use.mnemonic
  modify fun assembler =>
    (assembler.emit (use.bytes index effect)).push (UInt16.ofNat effect.put)

theorem ofExcept_map {α β : Type} (result : Except ClassFileError α) (make : α → β)
    (next : β → Assembly Unit) :
    (ofExcept (result.map make) >>= next) = ofExcept result >>= fun value => next (make value) := by
  cases result <;> rfl

theorem pop_zero (mnemonic : String) : pop 0 mnemonic = pure () := by
  funext assembler
  rw [pop, if_pos UInt16.zero_le, UInt16.sub_zero]
  rfl

/-- What the operations add up in words is the sum of the numbers, narrowed to a word. -/
theorem perform_refer (use : MemberUse) (member : MemberReference) :
    (AssemblyCall.refer use member).perform = refer use member := by
  rw [refer]
  cases use with
  | getstatic =>
      simp only [MemberUse.effect, ofExcept_map, MemberUse.receiverSlots, UInt16.ofNat_toNat]
      simp only [UInt16.reduceOfNat, pop_zero, pure_bind]
      rfl
  | getfield =>
      simp only [MemberUse.effect, ofExcept_map, UInt16.ofNat_toNat]
      rfl
  | invokestatic =>
      simp only [MemberUse.effect, ofExcept_map, MemberUse.receiverSlots, Nat.add_zero,
        ← MethodDescriptor.parameterSlots_eq, UInt16.ofNat_toNat]
      rfl
  | invokevirtual =>
      simp only [MemberUse.effect, ofExcept_map, MemberUse.receiverSlots,
        ← MethodDescriptor.parameterSlots_succ, UInt16.ofNat_toNat]
      rfl
  | invokeinterface =>
      simp only [MemberUse.effect, ofExcept_map, MemberUse.receiverSlots, MemberUse.bytes,
        ← UInt16.toUInt8_ofNat', ← MethodDescriptor.parameterSlots_succ, UInt16.ofNat_toNat]
      rfl

/-- The descriptor is read first, then the reference is interned, and last the stack is
looked at. -/
theorem refer_apply (use : MemberUse) (member : MemberReference) (assembler : Assembler) :
    refer use member assembler =
      match use.effect member.descriptor with
      | .error fault => (.error fault, assembler)
      | .ok effect =>
        match (use.request member).serve assembler.pool with
        | (.error fault, pool) => (.error fault, { assembler with pool })
        | (.ok index, pool) =>
          if UInt16.ofNat effect.taken ≤ assembler.depth then
            (.ok (), ({ assembler with
                pool, depth := assembler.depth - UInt16.ofNat effect.taken }.emit
              (use.bytes index effect)).push (UInt16.ofNat effect.put))
          else (.error (.stackUnderflow use.mnemonic), { assembler with pool }) := by
  rw [refer]
  cases use.effect member.descriptor with
  | error fault => rfl
  | ok effect =>
      rcases served : (use.request member).serve assembler.pool with ⟨answer, pool⟩
      dsimp only
      rw [bind_apply, ofExcept]
      dsimp only
      rw [bind_apply, interned, served]
      cases answer with
      | error fault => rfl
      | ok index =>
          dsimp only
          rw [bind_apply, pop]
          by_cases deep : UInt16.ofNat effect.taken ≤ assembler.depth
          · simp only [if_pos deep]
            rfl
          · simp only [if_neg deep]

/-- Of the string only the interning can fail. -/
theorem ldc_apply (text : String) (assembler : Assembler) :
    ldc text assembler =
      match InternRequest.serve (.string text) assembler.pool with
      | (.error fault, pool) => (.error fault, { assembler with pool })
      | (.ok index, pool) => (.ok (), ({ assembler with pool }.emit (ldcBytes index)).push 1) := by
  have asked : InternRequest.serve (.string text) = Interning.string text := rfl
  rw [ldc, bind_apply, interned, asked]
  rcases Interning.string text assembler.pool with ⟨answer, pool⟩
  cases answer <;> rfl

end Assembly

namespace AssemblyCall

/-- What a call that succeeds does to the assembler. -/
inductive Performs : AssemblyCall → Assembler → Assembler → Prop where
  | nop {assembler : Assembler} : Performs .nop assembler (assembler.emit [Opcode.nop])
  | aload {assembler : Assembler} (index : UInt16) :
      Performs (.aload index) assembler
        (((assembler.emit (Assembly.aloadBytes index)).useLocal index).push 1)
  | ldc {assembler : Assembler} {text : String} {index : UInt16} {pool : ConstantPool} :
      InternRequest.serve (.string text) assembler.pool = (.ok index, pool) →
        Performs (.ldc text) assembler
          (({ assembler with pool }.emit (Assembly.ldcBytes index)).push 1)
  | refer {assembler : Assembler} {use : MemberUse} {member : MemberReference}
      {effect : StackEffect} {index : UInt16} {pool : ConstantPool} :
      use.effect member.descriptor = .ok effect →
        (use.request member).serve assembler.pool = (.ok index, pool) →
          UInt16.ofNat effect.taken ≤ assembler.depth →
            Performs (.refer use member) assembler
              (({ assembler with
                  pool, depth := assembler.depth - UInt16.ofNat effect.taken }.emit
                (use.bytes index effect)).push (UInt16.ofNat effect.put))

variable {call : AssemblyCall} {assembler next : Assembler} {fault : ClassFileError}

theorem perform_eq_ok_iff :
    call.perform assembler = (.ok (), next) ↔ Performs call assembler next := by
  constructor
  · intro success
    cases call with
    | nop =>
        cases success
        exact .nop
    | aload index =>
        cases success
        exact .aload index
    | ldc text =>
        rw [perform, Assembly.ldc_apply] at success
        split at success
        · cases success
        · rename_i index pool served
          cases success
          exact .ldc served
    | refer use member =>
        rw [Assembly.perform_refer, Assembly.refer_apply] at success
        split at success
        · cases success
        · rename_i effect described
          split at success
          · cases success
          · rename_i index pool served
            split at success
            · rename_i deep
              cases success
              exact .refer described served deep
            · cases success
  · intro performs
    cases performs with
    | nop => rfl
    | aload index => rfl
    | ldc served => rw [perform, Assembly.ldc_apply, served]
    | refer described served deep =>
        rw [Assembly.perform_refer, Assembly.refer_apply, described, served]
        exact if_pos deep

/-- A call that fails leaves everything but the pool as it was. -/
theorem eq_of_perform_eq_error (failed : call.perform assembler = (.error fault, next)) :
    next = { assembler with pool := next.pool } := by
  cases call with
  | nop | aload index => cases failed
  | ldc text =>
      rw [perform, Assembly.ldc_apply] at failed
      split at failed <;> cases failed
      rfl
  | refer use member =>
      rw [Assembly.perform_refer, Assembly.refer_apply] at failed
      split at failed
      · cases failed
        rfl
      · split at failed
        · cases failed
          rfl
        · split at failed <;> cases failed
          rfl

/-- The constant that the operand leads to, if there is one. -/
def request? : AssemblyCall → Option InternRequest
  | .nop | .aload _ => none
  | .ldc text => some (.string text)
  | .refer use member => some (use.request member)

/-- Whatever comes of a call, nothing but its constant is asked of the pool. -/
theorem pool_perform (call : AssemblyCall) (assembler : Assembler) :
    (call.perform assembler).2.pool = assembler.pool ∨
      ∃ request, call.request? = some request ∧
        (call.perform assembler).2.pool = (request.serve assembler.pool).2 := by
  cases call with
  | nop | aload index => exact .inl rfl
  | ldc text =>
      refine .inr ⟨_, rfl, ?_⟩
      rw [perform, Assembly.ldc_apply]
      split <;> rename_i served <;> rw [served]
      rfl
  | refer use member =>
      rw [Assembly.perform_refer, Assembly.refer_apply]
      split
      · exact .inl rfl
      · refine .inr ⟨_, rfl, ?_⟩
        split
        · rename_i served
          rw [served]
        · rename_i served
          rw [served]
          split <;> rfl

theorem grown_perform (wellFormed : assembler.pool.WellFormed) (call : AssemblyCall) :
    assembler.pool.GrowsTo (call.perform assembler).2.pool ∧
      (call.perform assembler).2.pool.WellFormed := by
  rcases call.pool_perform assembler with same | ⟨request, -, same⟩ <;> rw [same]
  · exact ⟨.refl _, wellFormed⟩
  · exact request.grown_serve wellFormed

/-- The code is the instruction that the call asks for, if this is the pool that its
operand is looked up in. -/
def Describes (pool : ConstantPool) (code : Bytes) : AssemblyCall → Prop
  | .nop => code = [Opcode.nop]
  | .aload index => code = Assembly.aloadBytes index
  | .ldc text => ∃ index, pool.stringText? index = some text ∧ code = Assembly.ldcBytes index
  | .refer use member => ∃ index effect,
      pool.memberReference index = .ok member ∧ code = use.bytes index effect

/-- What a use of a member asks for leads to the member. -/
theorem memberReference_of_request {pool later : ConstantPool} (wellFormed : pool.WellFormed)
    {use : MemberUse} {member : MemberReference} {index : UInt16}
    (served : (use.request member).serve pool = (.ok index, later)) :
    later.memberReference index = .ok member := by
  cases use with
  | getstatic | getfield =>
      exact Interning.memberReference_of_reference wellFormed (.inl rfl) served
  | invokestatic | invokevirtual =>
      exact Interning.memberReference_of_reference wellFormed (.inr (.inl rfl)) served
  | invokeinterface =>
      exact Interning.memberReference_of_reference wellFormed (.inr (.inr rfl)) served

/-- A call that succeeds appends its instruction, which stays right however the pool
grows. -/
theorem Performs.describes (wellFormed : assembler.pool.WellFormed)
    (performs : Performs call assembler next) :
    ∃ code : Bytes, next.code = assembler.code ++ code ∧
      ∀ pool, next.pool.GrowsTo pool → call.Describes pool code := by
  cases performs with
  | nop => exact ⟨_, rfl, fun _ _ => rfl⟩
  | aload index => exact ⟨_, rfl, fun _ _ => rfl⟩
  | ldc served =>
      have found := Interning.stringText?_of_string wellFormed served
      exact ⟨_, rfl, fun _ beyond => ⟨_, beyond.stringText? found, rfl⟩⟩
  | refer described served deep =>
      have found := memberReference_of_request wellFormed served
      exact ⟨_, rfl, fun _ beyond => ⟨_, _, beyond.memberReference found, rfl⟩⟩

end AssemblyCall

/-! ### Rows of calls -/

/-- An assembler, and the calls that it has answered with success. -/
structure RecordedAssembly where
  assembler : Assembler
  accepted : List AssemblyCall

namespace RecordedAssembly

/-- Nothing was asked of the assembler yet. -/
def start (pool : ConstantPool) : RecordedAssembly := ⟨.start pool, []⟩

/-- Perform a call, and record it if it succeeds. -/
def serve (recorded : RecordedAssembly) (call : AssemblyCall) : RecordedAssembly :=
  match call.perform recorded.assembler with
  | (.ok (), next) => ⟨next, recorded.accepted ++ [call]⟩
  | (.error _, next) => ⟨next, recorded.accepted⟩

/-- Perform one call after the other, whether they succeed or not. -/
def run (recorded : RecordedAssembly) (calls : List AssemblyCall) : RecordedAssembly :=
  calls.foldl serve recorded

variable {recorded : RecordedAssembly}

theorem run_cons (recorded : RecordedAssembly) (call : AssemblyCall) (calls : List AssemblyCall) :
    recorded.run (call :: calls) = (recorded.serve call).run calls := rfl

/-- A call is performed and recorded, or it only adds to the pool. -/
theorem serve_cases (recorded : RecordedAssembly) (call : AssemblyCall) :
    (∃ next, call.Performs recorded.assembler next ∧
      recorded.serve call = ⟨next, recorded.accepted ++ [call]⟩) ∨
      ∃ pool, recorded.serve call = ⟨{ recorded.assembler with pool }, recorded.accepted⟩ := by
  rcases performed : call.perform recorded.assembler with ⟨_ | _, next⟩
  · refine .inr ⟨next.pool, ?_⟩
    rw [serve, performed, ← AssemblyCall.eq_of_perform_eq_error performed]
  · refine .inl ⟨next, AssemblyCall.perform_eq_ok_iff.mp performed, ?_⟩
    rw [serve, performed]

theorem grown_serve (wellFormed : recorded.assembler.pool.WellFormed) (call : AssemblyCall) :
    recorded.assembler.pool.GrowsTo (recorded.serve call).assembler.pool ∧
      (recorded.serve call).assembler.pool.WellFormed := by
  have served : (recorded.serve call).assembler = (call.perform recorded.assembler).2 := by
    rcases performed : call.perform recorded.assembler with ⟨_ | _, next⟩ <;> rw [serve, performed]
  rw [served]
  exact call.grown_perform wellFormed

end RecordedAssembly

end Lookout
