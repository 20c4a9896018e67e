/-
# The count in a call of an interface method

The instruction says once more how many slots it takes: those of the arguments and
the one of the object. The field has one byte and nothing asks whether the number fits, so
the count is right up to 255 slots, and beyond that only its remainder is there. Nothing
limits the parameters of a descriptor either, and the stack is followed by the number
modulo 65536.
-/

import Lookout.Proofs.Descriptor.RoundTrip
import Lookout.Proofs.Fragment.Disassembly
import Lookout.Proofs.Instruction.Layout

namespace Lookout

/-- The slots that a call takes off the stack: the arguments, and the object below them. -/
def MethodDescriptor.slotsTaken (descriptor : MethodDescriptor) : Nat :=
  descriptor.argumentSlots + 1

/-- A number narrowed to a byte is the same number exactly if it is below 256. -/
theorem toNat_ofNat8_eq_iff (number : Nat) :
    (UInt8.ofNat number).toNat = number ↔ number ≤ 255 := by
  rw [UInt8.toNat_ofNat']
  omega

namespace AssemblyCall

variable {assembler next : Assembler} {member : MemberReference} {descriptor : MethodDescriptor}

/-- The instruction that calls the method of an interface. -/
def interfaceCall (offset : Nat) (index : UInt16) (count : UInt8) : Instruction :=
  ⟨offset, Opcode.invokeinterface, Word.bytes16 index ++ [count, 0]⟩

theorem isWhole_interfaceCall (offset : Nat) (index : UInt16) (count : UInt8) :
    (interfaceCall offset index count).IsWhole :=
  Instruction.isWhole_of_fixedLength offset rfl

theorem invokeinterface_eq_ok_iff :
    Assembly.invokeinterface member assembler = (.ok (), next) ↔
      Performs (.refer .invokeinterface member) assembler next := by
  show (AssemblyCall.refer .invokeinterface member).perform assembler = (.ok (), next) ↔ _
  exact perform_eq_ok_iff

/-- The effect of a call is known once its descriptor is. -/
theorem effect_invokeinterface
    (described : MethodDescriptor.ofText member.descriptor = .ok descriptor) :
    MemberUse.invokeinterface.effect member.descriptor =
      .ok ⟨descriptor.slotsTaken, descriptor.returns.slots.toNat⟩ := by
  rw [MemberUse.effect, described]
  rfl

/-- No call succeeds without a descriptor. -/
theorem Performs.exists_descriptor
    (performs : Performs (.refer .invokeinterface member) assembler next) :
    ∃ descriptor, MethodDescriptor.ofText member.descriptor = .ok descriptor := by
  cases performs with
  | refer effectKnown _ _ =>
      rw [MemberUse.effect] at effectKnown
      cases described : MethodDescriptor.ofText member.descriptor with
      | error fault =>
          rw [described] at effectKnown
          cases effectKnown
      | ok descriptor => exact ⟨descriptor, rfl⟩

/-- What a call that succeeds does, in terms of the slots that it takes. -/
theorem Performs.invokeinterface
    (performs : Performs (.refer .invokeinterface member) assembler next)
    (described : MethodDescriptor.ofText member.descriptor = .ok descriptor) :
    ∃ index,
      (Interning.interfaceMethodRef member assembler.pool).1 = .ok index ∧
      descriptor.slotsTaken % 65536 ≤ assembler.depth.toNat ∧
      next.depth.toNat = (assembler.depth.toNat - descriptor.slotsTaken % 65536 +
        descriptor.returns.slots.toNat) % 65536 ∧
      next.code.toList = assembler.code.toList ++ Opcode.invokeinterface ::
        (interfaceCall assembler.offset index (UInt8.ofNat descriptor.slotsTaken)).operands := by
  cases performs with
  | refer effectKnown served deep =>
      cases effectKnown.symm.trans (effect_invokeinterface described)
      refine ⟨_, congrArg Prod.fst served, Word.ofNat16_le_iff.mp deep,
        Word.toNat_sub_add_ofNat16 deep _, ?_⟩
      exact Array.toList_appendList

/-- A call of an interface method is assembled whenever its descriptor is one, its reference
is to be had and there are the slots that it takes, or as many as are left of them modulo
65536: its count is not among the conditions. The instruction then stands where the assembler
was, whatever is appended behind it, and its count is the number of slots modulo 256. It is
the number itself exactly up to 255 slots. -/
theorem interfaceCount_of_invokeinterface (assembler : Assembler) (member : MemberReference) :
    ((∃ next, Assembly.invokeinterface member assembler = (.ok (), next)) ↔
      ∃ descriptor, MethodDescriptor.ofText member.descriptor = .ok descriptor ∧
        (∃ index, (Interning.interfaceMethodRef member assembler.pool).1 = .ok index) ∧
        descriptor.slotsTaken % 65536 ≤ assembler.depth.toNat) ∧
    ∀ next descriptor, Assembly.invokeinterface member assembler = (.ok (), next) →
      MethodDescriptor.ofText member.descriptor = .ok descriptor →
      ∃ index count,
        (∀ after, Instruction.decode (next.code.toList ++ after) assembler.offset =
          .ok (interfaceCall assembler.offset index count)) ∧
        (Interning.interfaceMethodRef member assembler.pool).1 = .ok index ∧
        next.depth.toNat = (assembler.depth.toNat - descriptor.slotsTaken % 65536 +
          descriptor.returns.slots.toNat) % 65536 ∧
        count.toNat = descriptor.slotsTaken % 256 ∧
        (count.toNat = descriptor.slotsTaken ↔ descriptor.slotsTaken ≤ 255) := by
  constructor
  · constructor
    · rintro ⟨next, success⟩
      have performs := invokeinterface_eq_ok_iff.mp success
      obtain ⟨descriptor, described⟩ := performs.exists_descriptor
      obtain ⟨index, found, deep, -, -⟩ := performs.invokeinterface described
      exact ⟨descriptor, described, ⟨index, found⟩, deep⟩
    · rintro ⟨descriptor, described, ⟨index, found⟩, deep⟩
      have served : (MemberUse.invokeinterface.request member).serve assembler.pool =
          (.ok index, (Interning.interfaceMethodRef member assembler.pool).2) :=
        Prod.ext found rfl
      exact ⟨_, invokeinterface_eq_ok_iff.mpr
        (.refer (effect_invokeinterface described) served (Word.ofNat16_le_iff.mpr deep))⟩
  · intro next descriptor success described
    obtain ⟨index, found, -, depth, appended⟩ :=
      (invokeinterface_eq_ok_iff.mp success).invokeinterface described
    refine ⟨index, UInt8.ofNat descriptor.slotsTaken, fun after => ?_, found, depth,
      UInt8.toNat_ofNat', toNat_ofNat8_eq_iff _⟩
    refine Instruction.decode_eq_ok_iff.mpr ⟨rfl, isWhole_interfaceCall _ _ _, after, ?_⟩
    rw [appended, Assembler.offset, ← Array.length_toList, List.append_assoc, List.drop_left]
    rfl

/-- A call with one argument carries the count 2. -/
theorem interfaceCount_of_invokeinterface_get :
    let assembler := ((RecordedAssembly.start .empty).run [.aload 0, .aload 1]).assembler
    let get : MemberReference :=
      ⟨"java/util/Map", "get", "(Ljava/lang/Object;)Ljava/lang/Object;"⟩
    ∃ next index count, Assembly.invokeinterface get assembler = (.ok (), next) ∧
      Instruction.decode next.code.toList 2 = .ok (interfaceCall 2 index count) ∧
      count.toNat = 2 := by
  intro assembler get
  have described : MethodDescriptor.ofText get.descriptor =
      .ok ⟨[.object "java/lang/Object"], .value (.object "java/lang/Object")⟩ := by
    decide +kernel
  have found : (Interning.interfaceMethodRef get assembler.pool).1 = .ok 6 := by decide +kernel
  obtain ⟨succeeds, counts⟩ := interfaceCount_of_invokeinterface assembler get
  obtain ⟨next, success⟩ := succeeds.mpr ⟨_, described, ⟨6, found⟩, by decide +kernel⟩
  obtain ⟨index, count, decoded, -, -, -, small⟩ := counts next _ success described
  have here := decoded []
  rw [List.append_nil] at here
  exact ⟨next, index, count, success, here, small.mpr (by decide)⟩

/-- 255 numbers, and nothing returned. -/
def wideDescriptor : MethodDescriptor := ⟨List.replicate 255 .int, .void⟩

/-- A method of an interface with so many arguments. -/
def wideMethod : MemberReference := ⟨"demo/Wide", "take", wideDescriptor.text⟩

theorem ofText_wideMethod :
    MethodDescriptor.ofText wideMethod.descriptor = .ok wideDescriptor := by
  refine MethodDescriptor.ofText_eq_ok_iff.mpr ⟨rfl, ⟨fun type member => ?_, trivial⟩⟩
  rw [List.eq_of_mem_replicate member]
  exact ⟨by decide, nofun⟩

/-- The method takes 256 slots, and the call of it says 0. -/
theorem invokeinterface_wideMethod :
    let assembler :=
      ((RecordedAssembly.start .empty).run (List.replicate 256 (.aload 0))).assembler
    ∃ next descriptor, Assembly.invokeinterface wideMethod assembler = (.ok (), next) ∧
      MethodDescriptor.ofText wideMethod.descriptor = .ok descriptor ∧
      descriptor.slotsTaken = 256 ∧
      next.code.toList = assembler.code.toList ++ [Opcode.invokeinterface, 0, 6, 0, 0] := by
  intro assembler
  have effect_eq := effect_invokeinterface ofText_wideMethod
  have found : (Interning.interfaceMethodRef wideMethod assembler.pool).1 = .ok 6 := by
    decide +kernel
  have served : (MemberUse.invokeinterface.request wideMethod).serve assembler.pool =
      (.ok 6, (Interning.interfaceMethodRef wideMethod assembler.pool).2) :=
    Prod.ext found rfl
  have taken : wideDescriptor.slotsTaken = 256 := by decide +kernel
  have deep : UInt16.ofNat wideDescriptor.slotsTaken ≤ assembler.depth := by decide +kernel
  obtain ⟨next, performs⟩ : ∃ next,
      Performs (.refer .invokeinterface wideMethod) assembler next :=
    ⟨_, .refer effect_eq served deep⟩
  obtain ⟨index, found', -, -, appended⟩ := performs.invokeinterface ofText_wideMethod
  cases found.symm.trans found'
  rw [taken] at appended
  exact ⟨next, wideDescriptor, invokeinterface_eq_ok_iff.mpr performs, ofText_wideMethod, taken,
    appended⟩

/-! ### Whole fragments -/

/-- The slots that the call takes, if it calls the method of an interface. -/
def interfaceSlots? : AssemblyCall → Option Nat
  | .refer .invokeinterface method =>
    (MethodDescriptor.ofText method.descriptor).toOption.map MethodDescriptor.slotsTaken
  | _ => none

/-- The count in the instruction, if it calls the method of an interface. -/
def interfaceCount? (instruction : Instruction) : Option UInt8 :=
  if instruction.opcode = Opcode.invokeinterface then instruction.operands[2]? else none

/-- An instruction with the opcode of such a call comes from one. -/
theorem eq_refer_of_ofInstruction? {pool : ConstantPool} {instruction : Instruction}
    {call : AssemblyCall} (comesFrom : ofInstruction? pool instruction = some call)
    (isCall : instruction.opcode = Opcode.invokeinterface) :
    ∃ member, call = .refer .invokeinterface member := by
  have read : ofInstruction? pool instruction =
      (Rehearsal.operandMember? pool instruction).bind fun member =>
        some (.refer .invokeinterface member) := by
    obtain ⟨offset, opcode, operands⟩ := instruction
    dsimp only at isCall
    subst isCall
    rfl
  rw [read, Option.bind_eq_some_iff] at comesFrom
  obtain ⟨member, -, same⟩ := comesFrom
  exact ⟨member, (Option.some.inj same).symm⟩

/-- A call that succeeds appends one instruction. It has a count exactly if a method of an
interface is called, and then the one of the slots. -/
theorem Performs.counted {call : AssemblyCall} (wellFormed : assembler.pool.WellFormed)
    (performs : Performs call assembler next) :
    ∃ opcode operands, next.code.toList = assembler.code.toList ++ opcode :: operands ∧
      ∀ offset, (Instruction.mk offset opcode operands).IsWhole ∧
        interfaceCount? ⟨offset, opcode, operands⟩ = call.interfaceSlots?.map UInt8.ofNat := by
  -- `Describes` leaves the effect open, so calls of interface methods are taken apart here.
  by_cases interface : ∃ member, call = .refer .invokeinterface member
  · obtain ⟨member, rfl⟩ := interface
    obtain ⟨descriptor, described⟩ := performs.exists_descriptor
    obtain ⟨index, -, -, -, appended⟩ := performs.invokeinterface described
    refine ⟨_, _, appended, fun offset => ⟨isWhole_interfaceCall offset _ _, ?_⟩⟩
    rw [interfaceSlots?, described]
    rfl
  · obtain ⟨code, appended, described⟩ := performs.describes wellFormed
    obtain ⟨opcode, operands, rfl, spelled⟩ :=
      spelledBy_of_describes (described next.pool (.refl _))
    refine ⟨opcode, operands, by rw [appended, Array.toList_appendList], fun offset =>
      ⟨(spelled offset).1, ?_⟩⟩
    have noCount : interfaceCount? ⟨offset, opcode, operands⟩ = none :=
      if_neg fun isCall => interface (eq_refer_of_ofInstruction? (spelled offset).2 isCall)
    have noSlots : call.interfaceSlots? = none := by
      unfold interfaceSlots?
      split
      · exact absurd ⟨_, rfl⟩ interface
      · rfl
    rw [noCount, noSlots, Option.map_none]

end AssemblyCall

namespace RecordedAssembly

open AssemblyCall (interfaceCount? interfaceSlots?)

/-- The counts in the code are those of the recorded calls. -/
def Counted (recorded : RecordedAssembly) : Prop :=
  ∃ instructions, Listing.Tiles 0 recorded.assembler.code.toList instructions ∧
    instructions.filterMap interfaceCount? =
      (recorded.accepted.filterMap interfaceSlots?).map UInt8.ofNat

variable {recorded : RecordedAssembly}

theorem counted_start (pool : ConstantPool) : (start pool).Counted := ⟨[], .nil 0, rfl⟩

theorem Counted.serve (counted : recorded.Counted)
    (wellFormed : recorded.assembler.pool.WellFormed) (call : AssemblyCall) :
    (recorded.serve call).Counted := by
  obtain ⟨instructions, tiles, counts⟩ := counted
  rcases recorded.serve_cases call with ⟨next, performs, served⟩ | ⟨pool, served⟩ <;> rw [served]
  · obtain ⟨opcode, operands, appended, spelled⟩ := performs.counted wellFormed
    let added : Instruction := ⟨recorded.assembler.code.toList.length, opcode, operands⟩
    refine ⟨instructions ++ [added], ?_, ?_⟩
    · rw [appended]
      exact tiles.concat (spelled added.offset).1
    · rw [List.filterMap_append, counts, List.filterMap_append, List.map_append]
      congr 1
      have here : interfaceCount? added = call.interfaceSlots?.map UInt8.ofNat :=
        (spelled added.offset).2
      cases slots : call.interfaceSlots? <;> simp [here, slots]
  · exact ⟨instructions, tiles, counts⟩

theorem Counted.run (counted : recorded.Counted)
    (wellFormed : recorded.assembler.pool.WellFormed) (calls : List AssemblyCall) :
    (recorded.run calls).Counted := by
  induction calls generalizing recorded with
  | nil => exact counted
  | cons call calls ih =>
      exact ih (counted.serve wellFormed call) (grown_serve wellFormed call).2

/-- After any calls on any pool that can come about, the counts in the code are the numbers
of slots of the calls that succeeded, in their order and modulo 256. They are these numbers
exactly if none of the calls takes more than 255 slots. -/
theorem interfaceCounts_run {pool : ConstantPool} (reachable : pool.Reachable)
    (calls : List AssemblyCall) :
    let last := (start pool).run calls
    let listing := Listing.ofCode last.assembler.code.toList
    let counts := listing.instructions.filterMap interfaceCount?
    let slots := last.accepted.filterMap interfaceSlots?
    counts = slots.map UInt8.ofNat ∧
      (counts.map UInt8.toNat = slots ↔ ∀ number ∈ slots, number ≤ 255) := by
  intro last listing counts slots
  obtain ⟨instructions, tiles, same⟩ := (counted_start pool).run reachable.wellFormed calls
  have listed : listing = ⟨instructions, none⟩ := tiles.ofCode_eq
  have counts_eq : counts = slots.map UInt8.ofNat := by
    show listing.instructions.filterMap interfaceCount? = _
    rw [listed]
    exact same
  refine ⟨counts_eq, ?_⟩
  have pointwise : slots.map (UInt8.toNat ∘ UInt8.ofNat) = slots.map id ↔
      ∀ number ∈ slots, (UInt8.toNat ∘ UInt8.ofNat) number = id number :=
    List.map_inj_left
  rw [List.map_id] at pointwise
  rw [counts_eq, List.map_map, pointwise]
  exact forall₂_congr fun number _ => toNat_ofNat8_eq_iff number

end RecordedAssembly

end Lookout
