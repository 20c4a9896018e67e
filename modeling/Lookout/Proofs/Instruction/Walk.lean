/-
# Walking over code

Instructions are taken one at a time: a walk decodes the one that it stands in front of and
goes on behind it, until the code ends or something cannot be decoded. What it yields on its
way is the listing. However broken the code is, the instructions lie side by side from its
first byte on, they come out at its end or in front of the byte to blame, and there are no
more of them than bytes.
-/

import Lookout.Proofs.Instruction.Layout
import Mathlib.Data.List.Chain

namespace Lookout

/-! ### What cannot be decoded -/

namespace Instruction

/-- What is reported where there is code that cannot be decoded. The report gives the place
where the instruction would start, or, for an opcode that cannot be widened, the place of
this opcode, which is one byte further on. -/
inductive Undecodable (code : Bytes) (offset : Nat) : ClassFileError → Prop where
  | cutShort {opcode : UInt8} :
      code[offset]? = some opcode →
        (∀ length, Opcode.fixedLength opcode = some length → code.length < offset + length) →
          Undecodable code offset (.unexpectedEnd offset)
  | unknown {opcode : UInt8} :
      code[offset]? = some opcode → opcode ≠ Opcode.wide → Opcode.fixedLength opcode = none →
        Undecodable code offset (.invalidOpcode opcode offset)
  | notWidened {opcode : UInt8} :
      code[offset]? = some Opcode.wide → code[offset + 1]? = some opcode →
        opcode ≠ Opcode.iinc → Opcode.isLocalAccess opcode = false →
          Undecodable code offset (.invalidOpcode opcode (offset + 1))

/-- How the operands can fail to be counted: bytes are missing that the count depends on, or
the opcode has no instruction, or the one behind `wide` cannot be widened. -/
theorem operandCount_eq_error {offset : Nat} {opcode : UInt8} {following : Bytes}
    {fault : ClassFileError} (failed : operandCount offset opcode following = .error fault) :
    Opcode.fixedLength opcode = none ∧
      (fault = .unexpectedEnd offset ∨
        (opcode ≠ Opcode.wide ∧ fault = .invalidOpcode opcode offset) ∨
        ∃ widened later, opcode = Opcode.wide ∧ following = widened :: later ∧
          widened ≠ Opcode.iinc ∧ Opcode.isLocalAccess widened = false ∧
          fault = .invalidOpcode widened (offset + 1)) := by
  have notFixed : Opcode.fixedLength opcode = none := by
    cases fixed : Opcode.fixedLength opcode with
    | none => rfl
    | some length =>
        obtain ⟨count, counted, -⟩ := operandCount_of_fixedLength fixed offset following
        cases counted.symm.trans failed
  refine ⟨notFixed, ?_⟩
  revert failed
  fun_cases operandCount offset opcode following <;> intro failed <;> cases failed
  -- The two switches fail in the same two ways.
  case case1.refl =>
    have table : opcode = Opcode.tableswitch := by assumption
    exact .inr (.inl ⟨by rw [table]; decide, rfl⟩)
  case case3.refl => exact .inl rfl
  case case4.refl =>
    have lookup : opcode = Opcode.lookupswitch := by assumption
    exact .inr (.inl ⟨by rw [lookup]; decide, rfl⟩)
  case case6.refl => exact .inl rfl
  case case7.refl => exact .inl rfl
  case case10.refl wide widened later notIncrement noAccess =>
    exact .inr (.inr ⟨widened, later, wide, rfl, notIncrement, Bool.eq_false_iff.mpr noAccess, rfl⟩)
  case case12.refl notWide _ => exact .inr (.inl ⟨notWide, rfl⟩)

theorem undecodable_of_decode {code : Bytes} {offset : Nat} {fault : ClassFileError}
    (inside : offset < code.length) (failed : decode code offset = .error fault) :
    Undecodable code offset fault := by
  have here : code[offset]? = some code[offset] := List.getElem?_eq_getElem inside
  have behind : code.drop offset = code[offset] :: code.drop (offset + 1) :=
    List.drop_eq_getElem_cons inside
  rw [decode, behind] at failed
  dsimp only at failed
  unfold ofBytes at failed
  split at failed
  · rename_i refused
    cases failed
    obtain ⟨notFixed, rfl | ⟨notWide, rfl⟩ | ⟨widened, later, wide, following, rest⟩⟩ :=
      operandCount_eq_error refused
    · refine .cutShort here fun length fixed => ?_
      rw [notFixed] at fixed
      cases fixed
    · exact .unknown here notWide notFixed
    · obtain ⟨notIncrement, noAccess, rfl⟩ := rest
      have next : code[offset + 1]? = some widened := by
        rw [← List.head?_drop, following, List.head?_cons]
      exact .notWidened (wide ▸ here) next notIncrement noAccess
  · rename_i count counted
    dsimp only at failed
    split at failed
    · cases failed
    · rename_i tooShort
      cases failed
      refine .cutShort here fun length fixed => ?_
      obtain ⟨_, countedToo, same⟩ :=
        operandCount_of_fixedLength fixed offset (code.drop (offset + 1))
      cases counted.symm.trans countedToo
      rw [List.length_take, List.length_drop] at tooShort
      omega

end Instruction

/-! ### The walk -/

/-- A walk over a code array: the offset that it has come to, and whether it has found
something there that cannot be decoded. -/
structure CodeWalk where
  code : Bytes
  offset : Nat
  failed : Bool

namespace CodeWalk

/-- The walk in front of the code. -/
def start (code : Bytes) : CodeWalk := ⟨code, 0, false⟩

/-- One step: what it yields, if anything, and the walk that is left. -/
def next (walk : CodeWalk) : Option (Except ClassFileError Instruction) × CodeWalk :=
  if walk.failed || walk.code.length ≤ walk.offset then (none, walk)
  else
    match Instruction.decode walk.code walk.offset with
    | .ok instruction =>
      (some (.ok instruction), { walk with offset := walk.offset + instruction.length })
    | .error fault => (some (.error fault), { walk with failed := true })

/-- Step by step the walk yields these items, and then, however often it is asked, nothing. -/
inductive Yields : CodeWalk → List (Except ClassFileError Instruction) → Prop where
  | done {walk : CodeWalk} : walk.next = (none, walk) → Yields walk []
  | item {walk later : CodeWalk} {item : Except ClassFileError Instruction}
      {items : List (Except ClassFileError Instruction)} :
      walk.next = (some item, later) → Yields later items → Yields walk (item :: items)

theorem next_of_failed {walk : CodeWalk} (failed : walk.failed = true) :
    walk.next = (none, walk) := by
  rw [next, failed, Bool.true_or, if_pos rfl]

theorem next_of_le {walk : CodeWalk} (atEnd : walk.code.length ≤ walk.offset) :
    walk.next = (none, walk) := by
  rw [next, decide_eq_true atEnd, Bool.or_true, if_pos rfl]

/-- Inside the code the walk goes on as decoding does. -/
theorem next_of_lt {code : Bytes} {offset : Nat} (inside : offset < code.length) :
    next ⟨code, offset, false⟩ =
      match Instruction.decode code offset with
      | .ok instruction => (some (.ok instruction), ⟨code, offset + instruction.length, false⟩)
      | .error fault => (some (.error fault), ⟨code, offset, true⟩) := by
  rw [next, if_neg (by simpa using inside)]

end CodeWalk

namespace Listing

open Instruction

/-- What the listing holds, in order: the instructions, and behind them the failure, if
there was one. -/
def items (listing : Listing) : List (Except ClassFileError Instruction) :=
  listing.instructions.map .ok ++ listing.failure.toList.map .error

/-- Where the last instruction of a listing that starts at the offset ends. Without one it
is the offset itself. -/
def stopFrom (offset : Nat) (listing : Listing) : Nat :=
  (listing.instructions.getLast?.map fun last => last.offset + last.length).getD offset

/-- Where the last instruction of a listing from the first byte on ends. -/
def stop (listing : Listing) : Nat := listing.stopFrom 0

/-- Decoding from the offset on, each instruction where the one before it ends, comes to this
listing. -/
inductive Decodes (code : Bytes) : Nat → Listing → Prop where
  | finished : Decodes code code.length ⟨[], none⟩
  | failed {offset : Nat} {fault : ClassFileError} :
      offset < code.length → decode code offset = .error fault →
        Decodes code offset ⟨[], some fault⟩
  | step {offset : Nat} {instruction : Instruction} {later : List Instruction}
      {failure : Option ClassFileError} :
      decode code offset = .ok instruction →
        Decodes code (offset + instruction.length) ⟨later, failure⟩ →
          Decodes code offset ⟨instruction :: later, failure⟩

variable {code : Bytes} {offset : Nat} {listing : Listing}

/-- An instruction that is decoded lies inside the code. -/
theorem end_le_of_decode {instruction : Instruction}
    (success : decode code offset = .ok instruction) :
    instruction.offset = offset ∧ offset + instruction.length ≤ code.length := by
  obtain ⟨rfl, -, back, there⟩ := decode_eq_ok_iff.mp success
  have lengths := congrArg List.length there
  rw [List.length_drop, List.length_cons, List.length_append] at lengths
  refine ⟨rfl, ?_⟩
  rw [Instruction.length]
  omega

theorem decodes_startingAt (inside : offset ≤ code.length) :
    Decodes code offset (startingAt offset (code.drop offset)) := by
  induction left : code.length - offset using Nat.strongRecOn generalizing offset with
  | ind remaining ih =>
      rcases Nat.eq_or_lt_of_le inside with rfl | inside
      · rw [List.drop_length, startingAt, ofBytesOnto]
        exact .finished
      · cases decoded : decode code offset with
        | error fault =>
            have failed := decoded
            rw [decode, List.drop_eq_getElem_cons inside] at failed
            rw [List.drop_eq_getElem_cons inside, startingAt_cons_error failed]
            exact .failed inside decoded
        | ok instruction =>
            obtain ⟨same, further⟩ := end_le_of_decode decoded
            obtain ⟨rfl, whole, back, there⟩ := decode_eq_ok_iff.mp decoded
            have later := ih (code.length - (instruction.offset + instruction.length))
              (by rw [Instruction.length] at further ⊢; omega) further rfl
            rw [drop_length_eq there] at later
            rw [there, startingAt_instruction whole]
            exact .step decoded later

/-- The listing of a code array is what decoding it comes to. -/
theorem decodes_ofCode (code : Bytes) : Decodes code 0 (ofCode code) :=
  decodes_startingAt (Nat.zero_le _)

namespace Decodes

/-- The walk yields the listing. -/
theorem yields (decodes : Decodes code offset listing) :
    CodeWalk.Yields ⟨code, offset, false⟩ listing.items := by
  induction decodes with
  | finished => exact .done (CodeWalk.next_of_le (Nat.le_refl _))
  | @failed offset fault inside undecodable =>
      have blamed : CodeWalk.next ⟨code, offset, false⟩ =
          (some (.error fault), ⟨code, offset, true⟩) := by
        rw [CodeWalk.next_of_lt inside, undecodable]
      exact .item blamed (.done (CodeWalk.next_of_failed rfl))
  | @step offset instruction later failure success _ ih =>
      have further := (end_le_of_decode success).2
      refine .item ?_ ih
      rw [CodeWalk.next_of_lt (by rw [Instruction.length] at further; omega), success]

/-- The first instruction stands at the offset, and each of the others where the one before it
ends. -/
theorem isChain (decodes : Decodes code offset listing) :
    (∀ first ∈ listing.instructions.head?, first.offset = offset) ∧
      listing.instructions.IsChain fun earlier later =>
        later.offset = earlier.offset + earlier.length := by
  induction decodes with
  | finished => exact ⟨nofun, .nil⟩
  | failed => exact ⟨nofun, .nil⟩
  | step success _ ih =>
      obtain ⟨rfl, -⟩ := end_le_of_decode success
      exact ⟨fun first same => by cases same; rfl, List.isChain_cons.mpr ih⟩

theorem of_mem (decodes : Decodes code offset listing) {instruction : Instruction}
    (member : instruction ∈ listing.instructions) :
    decode code instruction.offset = .ok instruction := by
  induction decodes with
  | finished => cases member
  | failed => cases member
  | step success _ ih =>
      rcases List.mem_cons.mp member with rfl | inLater
      · rwa [(end_le_of_decode success).1]
      · exact ih inLater

theorem stopFrom_cons (offset : Nat) (instruction : Instruction) (later : List Instruction)
    (failure : Option ClassFileError) :
    stopFrom offset ⟨instruction :: later, failure⟩ =
      stopFrom (instruction.offset + instruction.length) ⟨later, failure⟩ := by
  rw [stopFrom, stopFrom, List.getLast?_cons]
  cases later.getLast? <;> rfl

/-- The instructions come out at the end of the code, or in front of what cannot be decoded. -/
theorem stop_cases (decodes : Decodes code offset listing) :
    (listing.failure = none ∧ listing.stopFrom offset = code.length) ∨
      ∃ fault, listing.failure = some fault ∧ listing.stopFrom offset < code.length ∧
        decode code (listing.stopFrom offset) = .error fault := by
  induction decodes with
  | finished => exact .inl ⟨rfl, rfl⟩
  | failed inside undecodable => exact .inr ⟨_, rfl, inside, undecodable⟩
  | step success _ ih =>
      obtain ⟨rfl, -⟩ := end_le_of_decode success
      rwa [stopFrom_cons]

/-- Every item takes a byte of its own. -/
theorem length_items_le (decodes : Decodes code offset listing) :
    offset + listing.items.length ≤ code.length := by
  induction decodes with
  | finished => exact Nat.le_refl _
  | failed inside => exact inside
  | @step offset instruction later failure success _ ih =>
      have more : (items ⟨instruction :: later, failure⟩).length =
          (items ⟨later, failure⟩).length + 1 := rfl
      rw [Instruction.length] at ih
      omega

end Decodes

/-- A walk over any bytes yields the listing of these bytes and then nothing more. The first
instruction stands at 0, each of the others where the one before it ends, and all lie inside
the code, each with at least one byte and with as many as its opcode says, if the opcode says
how many. They come out at the end of the code, or there is one failure behind them, in the
code and right where they stop, and its report gives that place or, for an opcode that cannot
be widened, the next one. There are no more items than bytes. -/
theorem walk_tiles (code : Bytes) :
    let listing := ofCode code
    (CodeWalk.start code).Yields listing.items ∧
      (∀ first ∈ listing.instructions.head?, first.offset = 0) ∧
      (listing.instructions.IsChain fun earlier later =>
        later.offset = earlier.offset + earlier.length) ∧
      (∀ instruction ∈ listing.instructions,
        decode code instruction.offset = .ok instruction ∧ 1 ≤ instruction.length ∧
          (∀ length, Opcode.fixedLength instruction.opcode = some length →
            instruction.length = length) ∧
          instruction.offset + instruction.length ≤ code.length) ∧
      ((listing.failure = none ∧ listing.stop = code.length) ∨
        ∃ fault, listing.failure = some fault ∧ listing.stop < code.length ∧
          decode code listing.stop = .error fault ∧ Undecodable code listing.stop fault) ∧
      listing.items.length ≤ code.length := by
  intro listing
  have decodes := decodes_ofCode code
  obtain ⟨first, chain⟩ := decodes.isChain
  refine ⟨decodes.yields, first, chain, fun instruction member => ?_, ?_, ?_⟩
  · have success := decodes.of_mem member
    obtain ⟨-, whole, -⟩ := decode_eq_ok_iff.mp success
    exact ⟨success, Nat.le_add_left 1 _, fun _ => whole.length_of_fixedLength,
      (end_le_of_decode success).2⟩
  · rcases decodes.stop_cases with complete | ⟨fault, failed, inside, undecodable⟩
    · exact .inl complete
    · exact .inr ⟨fault, failed, inside, undecodable, undecodable_of_decode inside undecodable⟩
  · have short := decodes.length_items_le
    rwa [Nat.zero_add] at short

/-- A table switch behind another instruction, and behind it a `wide` in front of an opcode
that has no wide form. -/
def notWidenedSample : Bytes :=
  [Opcode.iload0, Opcode.tableswitch, 0, 0, 0, 0, 0, 20, 0, 0, 0, 0, 0, 0, 0, 1, 0, 0, 0, 23,
    0, 0, 0, 23, Opcode.wide, Opcode.nop, Opcode.returnVoid]

/-- The walk yields the first two instructions, and then blames the byte behind `wide`, which
is one further on than where the two stop. -/
theorem walk_tiles_notWidenedSample :
    (∃ first switch : Instruction, first.length = 1 ∧ switch.length = 23 ∧
      (CodeWalk.start notWidenedSample).Yields
        [.ok first, .ok switch, .error (.invalidOpcode Opcode.nop 25)] ∧
      decode notWidenedSample 1 = .ok switch ∧ 1 + switch.length ≤ notWidenedSample.length) ∧
    Undecodable notWidenedSample 24 (.invalidOpcode Opcode.nop 25) := by
  obtain ⟨yields, -, -, inside, stops, -⟩ := walk_tiles notWidenedSample
  have listed : ofCode notWidenedSample =
      ⟨[⟨0, Opcode.iload0, []⟩, ⟨1, Opcode.tableswitch, (notWidenedSample.drop 2).take 22⟩],
        some (.invalidOpcode Opcode.nop 25)⟩ := by
    decide +kernel
  rw [listed] at yields inside stops
  obtain ⟨decoded, -, -, contained⟩ := inside _ (List.mem_cons_of_mem _ List.mem_cons_self)
  refine ⟨⟨_, _, rfl, rfl, yields, decoded, contained⟩, ?_⟩
  rcases stops with ⟨impossible, -⟩ | ⟨_, failed, -, -, undecodable⟩
  · cases impossible
  · cases failed
    exact undecodable

end Listing

end Lookout
