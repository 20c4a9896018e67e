/-
# The frame that assembled code needs

A counter that knows nothing of the assembler goes through the instructions and follows
the depth of the operand stack, by the descriptors that the operands lead to. It counts in
numbers, and the assembler in words of 16 bits. As long as the words have room, the counter
never finds too few slots, it ends at the depth that the assembler has followed itself, and
the most that it counts is what the finished fragment asks for. The same is said of the
local variables: the largest index that is loaded decides how many there have to be.
-/

import Lookout.Proofs.Fragment.Assembly
import Lookout.Proofs.Fragment.Disassembly
import Mathlib.Data.List.Infix

namespace Lookout

namespace AssemblyCall

/-- What the instruction of the call does to the stack. -/
def effect : AssemblyCall → Except ClassFileError StackEffect
  | .nop => .ok ⟨0, 0⟩
  | .aload _ | .ldc _ => .ok ⟨0, 1⟩
  | .refer use member => use.effect member.descriptor

/-- The local variable that the instruction of the call loads. -/
def local? : AssemblyCall → Option Nat
  | .aload index => some index.toNat
  | _ => none

end AssemblyCall

/-! ### Counting -/

/-- Slots of the operand stack that are in use, and the most that were so far. -/
structure StackUse where
  depth : Nat
  peak : Nat
  deriving DecidableEq

namespace StackUse

/-- The count behind an instruction, if there are as many slots as it takes. -/
def after? (use : StackUse) (effect : StackEffect) : Option StackUse :=
  if effect.taken ≤ use.depth then
    let depth := use.depth - effect.taken + effect.put
    some ⟨depth, max use.peak depth⟩
  else none

/-- The count behind the instruction of a call. -/
def afterCall? (use : StackUse) (call : AssemblyCall) : Option StackUse := do
  let effect ← call.effect.toOption
  use.after? effect

/-- The count behind all instructions, from an empty stack on. What an operand leads to
is looked up in the pool. -/
def ofInstructions? (pool : ConstantPool) (instructions : List Instruction) : Option StackUse :=
  instructions.foldlM (fun use instruction =>
    (AssemblyCall.ofInstruction? pool instruction).bind use.afterCall?) ⟨0, 0⟩

end StackUse

/-- How many local variables there have to be if these are loaded: one more than the
largest index. A frame has at most 65535 of them. -/
def localSlots (loaded : List Nat) : Nat :=
  match loaded.max? with
  | none => 0
  | some largest => min 65535 (largest + 1)

/-- The local variables that the instructions load. -/
def loadedLocals (pool : ConstantPool) (instructions : List Instruction) : List Nat :=
  instructions.filterMap fun instruction =>
    (AssemblyCall.ofInstruction? pool instruction).bind AssemblyCall.local?

theorem localSlots_concat (loaded : List Nat) (index : Nat) :
    localSlots (loaded ++ [index]) = max (localSlots loaded) (min 65535 (index + 1)) := by
  cases loaded with
  | nil => simp [localSlots]
  | cons first rest =>
      simp only [localSlots, List.cons_append, List.max?_cons', List.foldl_append, List.foldl_cons,
        List.foldl_nil]
      omega

section Disassembled

variable {pool : ConstantPool} {instructions : List Instruction} {calls : List AssemblyCall}
  (comeFrom : instructions.map (AssemblyCall.ofInstruction? pool) = calls.map some)

include comeFrom

/-- Instructions that come from calls are counted as these calls. -/
theorem StackUse.ofInstructions?_eq :
    ofInstructions? pool instructions = calls.foldlM afterCall? ⟨0, 0⟩ := by
  have counted := congrArg
    (List.foldlM (fun (use : StackUse) call? => call?.bind use.afterCall?) ⟨0, 0⟩) comeFrom
  rwa [List.foldlM_map, List.foldlM_map] at counted

theorem loadedLocals_eq :
    loadedLocals pool instructions = calls.filterMap AssemblyCall.local? := by
  have loaded := congrArg (List.filterMap (·.bind AssemblyCall.local?)) comeFrom
  rwa [List.filterMap_map, List.filterMap_map] at loaded

end Disassembled

/-! ### The assembler counts along -/

namespace AssemblyCall.Performs

variable {call : AssemblyCall} {assembler next : Assembler}

/-- The assembler takes off the stack and puts on it what the instruction does, modulo
65536. -/
theorem exists_effect (performs : call.Performs assembler next)
    (tracked : assembler.depth ≤ assembler.maxStack) :
    ∃ effect, call.effect = .ok effect ∧ UInt16.ofNat effect.taken ≤ assembler.depth ∧
      next.depth = assembler.depth - UInt16.ofNat effect.taken + UInt16.ofNat effect.put ∧
      next.maxStack = max assembler.maxStack next.depth := by
  have unmoved : assembler.depth = assembler.depth - 0 := by rw [UInt16.sub_zero]
  cases performs with
  | nop =>
      refine ⟨⟨0, 0⟩, rfl, UInt16.zero_le, unmoved.trans (UInt16.add_zero _).symm, ?_⟩
      rw [UInt16.le_iff_toNat_le] at tracked
      rw [← UInt16.toNat_inj, Word.toNat_max16]
      exact (Nat.max_eq_left tracked).symm
  | aload index | ldc served =>
      refine ⟨⟨0, 1⟩, rfl, UInt16.zero_le, ?_, rfl⟩
      exact congrArg (· + 1) unmoved
  | refer described served deep => exact ⟨_, described, deep, rfl, rfl⟩

/-- The assembler counts as the counter does, as long as it knows of the most slots and its
words have room for the numbers. -/
theorem afterCall? (performs : call.Performs assembler next)
    (tracked : assembler.depth ≤ assembler.maxStack)
    (narrow : ∀ effect, call.effect = .ok effect → effect.taken < 65536) :
    ∃ use,
      (StackUse.mk assembler.depth.toNat assembler.maxStack.toNat).afterCall? call = some use ∧
      (use.depth < 65536 →
        use = ⟨next.depth.toNat, next.maxStack.toNat⟩ ∧ next.depth ≤ next.maxStack) := by
  obtain ⟨effect, known, deep, depth, maxStack⟩ := performs.exists_effect tracked
  have taken : effect.taken % 65536 = effect.taken := Nat.mod_eq_of_lt (narrow effect known)
  have enough : effect.taken ≤ assembler.depth.toNat := taken ▸ Word.ofNat16_le_iff.mp deep
  have counts : (StackUse.mk assembler.depth.toNat assembler.maxStack.toNat).afterCall? call =
      some ⟨assembler.depth.toNat - effect.taken + effect.put,
        max assembler.maxStack.toNat (assembler.depth.toNat - effect.taken + effect.put)⟩ := by
    rw [StackUse.afterCall?, known]
    exact if_pos enough
  refine ⟨_, counts, fun room => ?_⟩
  have sameDepth : next.depth.toNat = assembler.depth.toNat - effect.taken + effect.put := by
    rw [depth, Word.toNat_sub_add_ofNat16 deep, taken]
    exact Nat.mod_eq_of_lt room
  have sameMost : next.maxStack.toNat = max assembler.maxStack.toNat next.depth.toNat := by
    rw [maxStack, Word.toNat_max16]
  refine ⟨by rw [sameMost, sameDepth], ?_⟩
  rw [UInt16.le_iff_toNat_le, sameMost]
  exact Nat.le_max_right _ _

theorem maxLocals (performs : call.Performs assembler next) {loaded : List Nat}
    (tracked : assembler.maxLocals.toNat = localSlots loaded) :
    next.maxLocals.toNat = localSlots (loaded ++ call.local?.toList) := by
  cases performs with
  | aload index =>
      show (max assembler.maxLocals (Word.succ16 index)).toNat = _
      rw [Word.toNat_max16, Word.toNat_succ16, tracked]
      exact (localSlots_concat loaded index.toNat).symm
  | nop | ldc served | refer described served deep =>
      show assembler.maxLocals.toNat = localSlots (loaded ++ [])
      rw [List.append_nil]
      exact tracked

end AssemblyCall.Performs

namespace RecordedAssembly

/-- The slots in use behind the recorded calls, counted without a bound. -/
def count? (recorded : RecordedAssembly) : Option StackUse :=
  recorded.accepted.foldlM StackUse.afterCall? ⟨0, 0⟩

/-- What the assembler has followed is what there is to count in the recorded calls. -/
structure Tracked (recorded : RecordedAssembly) : Prop where
  counted : recorded.count? =
    some ⟨recorded.assembler.depth.toNat, recorded.assembler.maxStack.toNat⟩
  depth_le : recorded.assembler.depth ≤ recorded.assembler.maxStack
  loaded : recorded.assembler.maxLocals.toNat =
    localSlots (recorded.accepted.filterMap AssemblyCall.local?)

variable {recorded : RecordedAssembly}

theorem tracked_start (pool : ConstantPool) : (start pool).Tracked := ⟨rfl, UInt16.zero_le, rfl⟩

theorem count?_concat {use : StackUse} (counted : recorded.count? = some use)
    (next : Assembler) (call : AssemblyCall) :
    count? ⟨next, recorded.accepted ++ [call]⟩ = use.afterCall? call := by
  rw [count?] at counted ⊢
  rw [List.foldlM_append, counted]
  show (use.afterCall? call).bind some = _
  exact Option.bind_fun_some _

theorem Tracked.serve (tracked : recorded.Tracked) {call : AssemblyCall}
    (narrow : ∀ effect, call.effect = .ok effect → effect.taken < 65536)
    (shallow : ∀ use, (recorded.serve call).count? = some use → use.depth < 65536) :
    (recorded.serve call).Tracked := by
  rcases recorded.serve_cases call with ⟨next, performs, served⟩ | ⟨pool, served⟩
  · rw [served] at shallow ⊢
    obtain ⟨use, counts, same⟩ := performs.afterCall? tracked.depth_le narrow
    have counted := (count?_concat tracked.counted next call).trans counts
    obtain ⟨rfl, depth_le⟩ := same (shallow use counted)
    refine ⟨counted, depth_le, ?_⟩
    rw [performs.maxLocals tracked.loaded, List.filterMap_append]
    cases here : call.local? <;> simp [here]
  · rw [served]
    exact ⟨tracked.counted, tracked.depth_le, tracked.loaded⟩

theorem Tracked.run (tracked : recorded.Tracked) {calls : List AssemblyCall}
    (narrow : ∀ call ∈ calls, ∀ effect, call.effect = .ok effect → effect.taken < 65536)
    (shallow : ∀ earlier, earlier <+: calls →
      ∀ use, (recorded.run earlier).count? = some use → use.depth < 65536) :
    (recorded.run calls).Tracked := by
  induction calls generalizing recorded with
  | nil => exact tracked
  | cons call calls ih =>
      obtain ⟨narrowHere, narrowLater⟩ := List.forall_mem_cons.mp narrow
      have here : [call] <+: call :: calls := List.cons_prefix_cons.mpr ⟨rfl, List.nil_prefix⟩
      refine ih (tracked.serve narrowHere (shallow [call] here)) narrowLater
        fun earlier isPrefix => ?_
      exact shallow (call :: earlier) (List.cons_prefix_cons.mpr ⟨rfl, isPrefix⟩)

end RecordedAssembly

/-! ### The finished fragment -/

namespace RecordedAssembly

/-- After any calls on any pool that can come about, none of which takes or leaves more slots
than 16 bits can count: going through the instructions never finds too few slots on the
stack and ends where the assembler does. The fragment is finished exactly if that leaves
nothing on the stack. It asks for the most slots that were in use, and for as many local
variables as the largest index takes, and is the code with up to three `nop` bytes behind
it that reach a multiple of four. -/
theorem stackUse_run {pool : ConstantPool} (reachable : pool.Reachable)
    {calls : List AssemblyCall}
    (narrow : ∀ call ∈ calls, ∀ effect, call.effect = .ok effect → effect.taken < 65536)
    (shallow : ∀ earlier, earlier <+: calls →
      ∀ use, ((start pool).run earlier).count? = some use → use.depth < 65536) :
    let last := ((start pool).run calls).assembler
    let listing := Listing.ofCode last.code.toList
    listing.failure = none ∧
      ∃ use, StackUse.ofInstructions? last.pool listing.instructions = some use ∧
        use.depth = last.depth.toNat ∧
        ((∃ fragment, last.finish = .ok fragment) ↔ use.depth = 0) ∧
        ∀ fragment, last.finish = .ok fragment →
          fragment.maxStack.toNat = use.peak ∧
            fragment.maxLocals.toNat = localSlots (loadedLocals last.pool listing.instructions) ∧
            fragment.length % 4 = 0 ∧
            ∃ padding < 4,
              fragment.code = last.code.toList ++ List.replicate padding Opcode.nop := by
  intro last listing
  obtain ⟨instructions, tiles, comeFromCalls⟩ :=
    (disassembles_start pool).run reachable.wellFormed calls
  have comeFrom := comeFromCalls last.pool (.refl _)
  have listed : listing = ⟨instructions, none⟩ := tiles.ofCode_eq
  have tracked := (tracked_start pool).run narrow shallow
  rw [listed]
  refine ⟨rfl, ⟨last.depth.toNat, last.maxStack.toNat⟩, ?_, rfl, ?_, fun fragment finished => ?_⟩
  · exact (StackUse.ofInstructions?_eq comeFrom).trans tracked.counted
  · simp only [Assembler.finish_eq_ok_iff, exists_and_left, exists_eq, and_true,
      ← UInt16.toNat_inj, UInt16.toNat_zero]
  · have aligned := Assembler.length_of_finish finished
    obtain ⟨-, rfl⟩ := Assembler.finish_eq_ok_iff.mp finished
    refine ⟨rfl, ?_, aligned, last.padding, last.padding_lt, rfl⟩
    rw [loadedLocals_eq comeFrom]
    exact tracked.loaded

/-- Calls that leave nothing on the stack. One of them fails, because it needs two numbers
of two slots each and there is one, with a reference on top of it. -/
def balancedCalls : List AssemblyCall :=
  [.refer .invokestatic ⟨"java/lang/System", "nanoTime", "()J"⟩, .aload 300,
    .refer .invokestatic ⟨"java/lang/Math", "max", "(JJ)J"⟩, .nop,
    .refer .invokevirtual ⟨"java/io/PrintStream", "println", "(J)V"⟩]

/-- They make a fragment of three stack slots and 301 local variables. -/
theorem stackUse_run_balancedCalls :
    ∃ fragment, ((start .empty).run balancedCalls).assembler.finish = .ok fragment ∧
      fragment.maxStack.toNat = 3 ∧ fragment.maxLocals.toNat = 301 ∧ fragment.length = 12 := by
  have narrow : ∀ call ∈ balancedCalls, ∀ effect, call.effect = .ok effect →
      effect.taken < 65536 := by
    have all : ∀ call ∈ balancedCalls, ∀ effect ∈ call.effect.toOption, effect.taken < 65536 := by
      decide +kernel
    exact fun call member effect known => all call member effect (by rw [known]; rfl)
  have shallow : ∀ earlier, earlier <+: balancedCalls →
      ∀ use, ((start .empty).run earlier).count? = some use → use.depth < 65536 := by
    have all : ∀ earlier ∈ balancedCalls.inits,
        ∀ use ∈ ((start .empty).run earlier).count?, use.depth < 65536 := by
      decide +kernel
    exact fun earlier isPrefix => all earlier ((List.mem_inits _ _).mpr isPrefix)
  have used : StackUse.ofInstructions? ((start .empty).run balancedCalls).assembler.pool
      (Listing.ofCode ((start .empty).run balancedCalls).assembler.code.toList).instructions =
        some ⟨0, 3⟩ := by
    decide +kernel
  have locals : localSlots (loadedLocals ((start .empty).run balancedCalls).assembler.pool
      (Listing.ofCode ((start .empty).run balancedCalls).assembler.code.toList).instructions) =
        301 := by
    decide +kernel
  have size : ((start .empty).run balancedCalls).assembler.code.toList.length = 11 := by
    decide +kernel
  obtain ⟨-, use, counted, -, finishes, framed⟩ := stackUse_run .empty narrow shallow
  cases used.symm.trans counted
  obtain ⟨fragment, finished⟩ := finishes.mpr rfl
  obtain ⟨maxStack, maxLocals, aligned, padding, short, code⟩ := framed fragment finished
  refine ⟨fragment, finished, maxStack, maxLocals.trans locals, ?_⟩
  rw [Fragment.length, code, List.length_append, List.length_replicate, size] at aligned ⊢
  omega

end RecordedAssembly

end Lookout
