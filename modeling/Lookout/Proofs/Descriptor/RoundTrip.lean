/-
# Descriptors are read as they are written

Reading takes a type off the front of a text exactly if the text begins with the
written form of that type and the type is one that a class file can name. From
this single equivalence it follows that a text spells at most one descriptor, that
a well formed descriptor is read back from its written form, and that nothing else
is accepted.
-/

import Lookout.Descriptor.Grammar
import Mathlib.Data.List.TakeWhile

namespace Lookout

/-! ### What can be spelled -/

/-- The name may stand in the descriptor of an object type. -/
def IsClassName (name : String) : Prop :=
  name ≠ "" ∧ ∀ character ∈ name.toList, character ≠ '.' ∧ character ≠ '[' ∧ character ≠ ';'

/-- A class file can name the type: arrays nest at most 255 deep, and a class that
is mentioned has a name that can be told from what stands around it. -/
structure FieldType.WellFormed (type : FieldType) : Prop where
  shallow : type.dimensions ≤ 255
  named : ∀ name, type.innermost = .object name → IsClassName name

/-- What is returned is nothing or of a well formed type. -/
def ReturnType.WellFormed : ReturnType → Prop
  | .void => True
  | .value type => type.WellFormed

/-- All types that the descriptor mentions are well formed. -/
structure MethodDescriptor.WellFormed (descriptor : MethodDescriptor) : Prop where
  parameters : ∀ type ∈ descriptor.parameters, type.WellFormed
  returns : descriptor.returns.WellFormed

namespace FieldType

/-! ### Arrays -/

theorem chars_eq (type : FieldType) :
    type.chars = List.replicate type.dimensions '[' ++ type.innermost.chars := by
  induction type with
  | array element ih =>
      rw [chars, ih, dimensions, innermost, List.replicate_succ, List.cons_append]
  | _ => rfl

theorem nested_succ (depth : Nat) (type : FieldType) :
    type.nested (depth + 1) = .array (type.nested depth) := rfl

theorem nested_innermost (type : FieldType) : type.innermost.nested type.dimensions = type := by
  induction type with
  | array element ih => rw [innermost, dimensions, nested_succ, ih]
  | _ => rfl

theorem innermost_ne_array (type element : FieldType) : type.innermost ≠ .array element := by
  induction type with
  | array _ ih => exact ih
  | _ => nofun

section Nested

variable {base : FieldType} (noArray : ∀ element, base ≠ .array element) (depth : Nat)

include noArray

theorem innermost_nested : (base.nested depth).innermost = base := by
  induction depth with
  | zero =>
      cases base with
      | array element => exact absurd rfl (noArray element)
      | _ => rfl
  | succ depth ih => rw [nested_succ, innermost, ih]

theorem dimensions_nested : (base.nested depth).dimensions = depth := by
  induction depth with
  | zero =>
      cases base with
      | array element => exact absurd rfl (noArray element)
      | _ => rfl
  | succ depth ih => rw [nested_succ, dimensions, ih]

end Nested

/-- The written form of a type is not empty, and cannot be mistaken for the end of
the parameters or for the absence of a value. -/
theorem exists_chars_eq_cons (type : FieldType) :
    ∃ first rest, type.chars = first :: rest ∧ first ≠ ')' ∧ first ≠ 'V' := by
  cases type with
  | _ => exact ⟨_, _, rfl, by decide, by decide⟩

/-- The written form of the type inside all arrays begins with no bracket. -/
theorem exists_chars_innermost_eq_cons (type : FieldType) :
    ∃ first rest, type.innermost.chars = first :: rest ∧ first ≠ '[' := by
  induction type with
  | array _ ih => exact ih
  | _ => exact ⟨_, _, rfl, by decide⟩

/-! ### Reading one type -/

/-- A run of characters that pass, up to the first one that does not. -/
theorem takeWhile_dropWhile_of_stop (passes : Char → Bool) {front : List Char} {stop : Char}
    (all : ∀ character ∈ front, passes character = true) (stops : passes stop = false)
    (rest : List Char) :
    (front ++ stop :: rest).takeWhile passes = front ∧
      (front ++ stop :: rest).dropWhile passes = stop :: rest := by
  have stopped : ¬passes stop = true := by rw [stops]; exact Bool.false_ne_true
  rw [List.takeWhile_append_of_pos all, List.dropWhile_append_of_pos all,
    List.takeWhile_cons_of_neg stopped, List.dropWhile_cons_of_neg stopped, List.append_nil]
  exact ⟨rfl, rfl⟩

theorem isClassName_ofList_iff (name : List Char) :
    IsClassName (String.ofList name) ↔ isObjectName name = true ∧ ';' ∉ name := by
  simp only [isObjectName, IsClassName, Bool.and_eq_true, Bool.not_eq_true',
    List.isEmpty_eq_false_iff, List.all_eq_true, bne_iff_ne, ne_eq, String.ofList_eq_empty_iff,
    String.toList_ofList]
  constructor
  · rintro ⟨full, allowed⟩
    exact ⟨⟨full, fun character member =>
      ⟨(allowed character member).1, (allowed character member).2.1⟩⟩,
      fun member => (allowed ';' member).2.2 rfl⟩
  · rintro ⟨⟨full, allowed⟩, unended⟩
    refine ⟨full, fun character member => ⟨(allowed character member).1,
      (allowed character member).2, ?_⟩⟩
    rintro rfl
    exact unended member

/-- The name of an object type runs to the first semicolon. -/
theorem readObject_append {name : List Char} (unended : ';' ∉ name) (rest : List Char) :
    readObject (name ++ ';' :: rest) =
      if isObjectName name then some (.object (String.ofList name), rest) else none := by
  obtain ⟨taken, dropped⟩ := takeWhile_dropWhile_of_stop (· != ';')
    (fun character member => bne_iff_ne.mpr fun same => unended (same ▸ member))
    (bne_self_eq_false ';') rest
  unfold readObject
  rw [taken, dropped]

theorem readObject_eq_none {text : List Char} (unended : ';' ∉ text) : readObject text = none := by
  have dropped : text.dropWhile (· != ';') = [] := by
    rw [List.dropWhile_eq_nil_iff]
    exact fun character member => bne_iff_ne.mpr fun same => unended (same ▸ member)
  unfold readObject
  rw [dropped]

/-- Behind its `L` an object type is a class name up to a semicolon. -/
theorem readObject_eq_some_iff {text rest : List Char} {type : FieldType} :
    readObject text = some (type, rest) ↔
      ∃ name, IsClassName name ∧ type = .object name ∧ text = name.toList ++ ';' :: rest := by
  constructor
  · intro success
    by_cases ended : ';' ∈ text
    · obtain ⟨name, tail, rfl, unended⟩ := List.eq_append_cons_of_mem ended
      rw [readObject_append unended] at success
      split at success
      · rename_i allowed
        cases success
        refine ⟨_, (isClassName_ofList_iff name).mpr ⟨allowed, unended⟩, rfl, ?_⟩
        rw [String.toList_ofList]
      · cases success
    · rw [readObject_eq_none ended] at success
      cases success
  · rintro ⟨name, isName, rfl, rfl⟩
    obtain ⟨allowed, unended⟩ := (isClassName_ofList_iff name.toList).mp
      (by rwa [String.ofList_toList])
    rw [readObject_append unended, if_pos allowed, String.ofList_toList]

theorem readInnermost_eq_some_iff {text rest : List Char} {type : FieldType} :
    readInnermost text = some (type, rest) ↔
      (∀ element, type ≠ .array element) ∧ (∀ name, type = .object name → IsClassName name) ∧
        text = type.chars ++ rest := by
  constructor
  · intro success
    unfold readInnermost at success
    split at success
    case h_9 =>
      obtain ⟨name, isName, rfl, rfl⟩ := readObject_eq_some_iff.mp success
      refine ⟨nofun, ?_, ?_⟩
      · rintro _ ⟨⟩
        exact isName
      · simp [chars]
    case h_10 => cases success
    all_goals
      cases success
      exact ⟨nofun, nofun, rfl⟩
  · rintro ⟨noArray, named, rfl⟩
    cases type with
    | object name =>
        rw [chars, List.cons_append, List.append_assoc, List.singleton_append, readInnermost]
        exact readObject_eq_some_iff.mpr ⟨name, named name rfl, rfl, rfl⟩
    | array element => exact absurd rfl (noArray element)
    | _ => rfl

/-- One type is read off the front of a text exactly if the text begins with the
written form of the type, and the type is well formed. -/
theorem read_eq_some_iff {text rest : List Char} {type : FieldType} :
    read text = some (type, rest) ↔ type.WellFormed ∧ text = type.chars ++ rest := by
  unfold read
  dsimp only
  constructor
  · intro success
    split at success
    · rename_i shallow
      obtain ⟨⟨base, tail⟩, found, same⟩ := Option.map_eq_some_iff.mp success
      cases same
      obtain ⟨noArray, named, dropped⟩ := readInnermost_eq_some_iff.mp found
      have taken : text.takeWhile (· == '[') =
          List.replicate (text.takeWhile (· == '[')).length '[' := by
        refine List.eq_replicate_iff.mpr ⟨rfl, fun character member => ?_⟩
        exact eq_of_beq (List.mem_takeWhile_imp (p := (· == '[')) member)
      refine ⟨⟨?_, ?_⟩, ?_⟩
      · rw [dimensions_nested noArray]
        exact shallow
      · rw [innermost_nested noArray]
        exact named
      · rw [chars_eq, dimensions_nested noArray, innermost_nested noArray, ← taken,
          List.append_assoc, ← dropped, List.takeWhile_append_dropWhile]
    · cases success
  · rintro ⟨wellFormed, rfl⟩
    have base : readInnermost (type.innermost.chars ++ rest) = some (type.innermost, rest) :=
      readInnermost_eq_some_iff.mpr ⟨type.innermost_ne_array, wellFormed.named, rfl⟩
    obtain ⟨first, tail, innermost_eq, noBracket⟩ := exists_chars_innermost_eq_cons type
    have brackets : ∀ character ∈ List.replicate type.dimensions '[', (character == '[') = true :=
      fun character member => beq_iff_eq.mpr (List.eq_of_mem_replicate member)
    obtain ⟨taken, dropped⟩ := takeWhile_dropWhile_of_stop (· == '[') brackets
      (beq_eq_false_iff_ne.mpr noBracket) (tail ++ rest)
    have shallow : type.dimensions ≤ maxDimensions := wellFormed.shallow
    rw [innermost_eq, List.cons_append] at base
    rw [chars_eq, innermost_eq, List.append_assoc, List.cons_append, taken, dropped,
      List.length_replicate, if_pos shallow, base, Option.map_some, nested_innermost]

/-- A text spells the types whose written form it is, if they are well formed. -/
theorem ofText_eq_ok_iff {text : String} {type : FieldType} :
    ofText text = .ok type ↔ type.text = text ∧ type.WellFormed := by
  have spelled : type.text = text ↔ text.toList = type.chars ++ [] := by
    rw [FieldType.text, List.append_nil, ← String.toList_inj, String.toList_ofList, eq_comm]
  rw [spelled, and_comm, ← read_eq_some_iff]
  unfold ofText
  split
  · rename_i other found
    rw [found]
    simp
  · rename_i notWhole
    constructor
    · nofun
    · intro whole
      exact absurd whole (notWhole type)

theorem ofText_eq_error {text : String} {fault : ClassFileError}
    (failure : ofText text = .error fault) : fault = .invalidDescriptor text := by
  unfold ofText at failure
  split at failure
  · cases failure
  · exact (Except.error.inj failure).symm

end FieldType

/-! ### Methods -/

namespace MethodDescriptor

/-- A well formed type in front is the next parameter. -/
theorem readParametersOnto_chars {type : FieldType} (wellFormed : type.WellFormed)
    (done : List FieldType) (rest : List Char) :
    readParametersOnto done (type.chars ++ rest) = readParametersOnto (type :: done) rest := by
  have found := FieldType.read_eq_some_iff.mpr ⟨wellFormed, rfl (a := type.chars ++ rest)⟩
  obtain ⟨first, tail, chars_eq, notClosed, -⟩ := type.exists_chars_eq_cons
  rw [chars_eq, List.cons_append] at found ⊢
  rw [readParametersOnto.eq_def]
  split
  · rename_i impossible
    cases impossible
  · rename_i closed
    cases closed
    exact absurd rfl notClosed
  · split
    · rename_i refused
      cases found.symm.trans refused
    · rename_i other remaining read
      cases found.symm.trans read
      rfl

/-- Parameters are read up to the parenthesis behind them. -/
theorem readParametersOnto_eq_some_iff {done parameters : List FieldType} {text rest : List Char} :
    readParametersOnto done text = some (parameters, rest) ↔
      ∃ more, parameters = done.reverse ++ more ∧ (∀ type ∈ more, type.WellFormed) ∧
        text = more.flatMap FieldType.chars ++ ')' :: rest := by
  constructor
  · intro success
    fun_induction readParametersOnto done text with
    | case1 => cases success
    | case2 done tail =>
        cases success
        exact ⟨[], by simp, nofun, rfl⟩
    | case3 => cases success
    | case4 done text notEmpty notClosed type tail found shorter ih =>
        obtain ⟨wellFormed, rfl⟩ := FieldType.read_eq_some_iff.mp found
        obtain ⟨more, rfl, allWellFormed, rfl⟩ := ih success
        exact ⟨type :: more, by simp, List.forall_mem_cons.mpr ⟨wellFormed, allWellFormed⟩, by simp⟩
  · rintro ⟨more, rfl, wellFormed, rfl⟩
    induction more generalizing done with
    | nil => rw [List.flatMap_nil, List.nil_append, readParametersOnto, List.append_nil]
    | cons type more ih =>
        obtain ⟨here, later⟩ := List.forall_mem_cons.mp wellFormed
        rw [List.flatMap_cons, List.append_assoc, readParametersOnto_chars here, ih later,
          List.reverse_cons, List.append_assoc, List.singleton_append]

theorem readReturn_eq_some_iff {text : List Char} {returns : ReturnType} :
    readReturn text = some returns ↔ returns.WellFormed ∧ text = returns.chars := by
  unfold readReturn
  constructor
  · intro success
    split at success
    · rename_i void
      cases success
      exact ⟨trivial, void⟩
    · split at success
      · rename_i type found
        cases success
        obtain ⟨wellFormed, spelled⟩ := FieldType.read_eq_some_iff.mp found
        exact ⟨wellFormed, by rw [spelled, List.append_nil]; rfl⟩
      · cases success
  · rintro ⟨wellFormed, rfl⟩
    cases returns with
    | void => rfl
    | value type =>
        obtain ⟨first, tail, chars_eq, -, notVoid⟩ := type.exists_chars_eq_cons
        have found : FieldType.read type.chars = some (type, []) :=
          FieldType.read_eq_some_iff.mpr ⟨wellFormed, (List.append_nil _).symm⟩
        have notV : type.chars ≠ ['V'] := by
          rw [chars_eq]
          intro same
          exact notVoid (List.cons.inj same).1
        rw [ReturnType.chars, if_neg notV, found]

theorem read_eq_some_iff {text : List Char} {descriptor : MethodDescriptor} :
    read text = some descriptor ↔ descriptor.WellFormed ∧ text = descriptor.chars := by
  constructor
  · intro success
    unfold read at success
    split at success
    · rename_i text
      obtain ⟨⟨parameters, rest⟩, parametersRead, returned⟩ := Option.bind_eq_some_iff.mp success
      obtain ⟨returns, returnsRead, rfl⟩ := Option.map_eq_some_iff.mp returned
      obtain ⟨more, rfl, parametersFormed, rfl⟩ := readParametersOnto_eq_some_iff.mp parametersRead
      obtain ⟨returnsFormed, rfl⟩ := readReturn_eq_some_iff.mp returnsRead
      exact ⟨⟨parametersFormed, returnsFormed⟩, rfl⟩
    · cases success
  · rintro ⟨wellFormed, rfl⟩
    have parametersRead : readParametersOnto []
        (descriptor.parameters.flatMap FieldType.chars ++ ')' :: descriptor.returns.chars) =
          some (descriptor.parameters, descriptor.returns.chars) :=
      readParametersOnto_eq_some_iff.mpr ⟨_, rfl, wellFormed.parameters, rfl⟩
    have returnsRead : readReturn descriptor.returns.chars = some descriptor.returns :=
      readReturn_eq_some_iff.mpr ⟨wellFormed.returns, rfl⟩
    rw [chars, read, parametersRead, Option.bind_some]
    dsimp only
    rw [returnsRead, Option.map_some]

/-- A text spells the descriptors whose written form it is, if they are well formed. -/
theorem ofText_eq_ok_iff {text : String} {descriptor : MethodDescriptor} :
    ofText text = .ok descriptor ↔ descriptor.text = text ∧ descriptor.WellFormed := by
  have spelled : descriptor.text = text ↔ text.toList = descriptor.chars := by
    rw [MethodDescriptor.text, ← String.toList_inj, String.toList_ofList, eq_comm]
  rw [spelled, and_comm, ← read_eq_some_iff]
  unfold ofText
  cases read text.toList <;> simp

theorem ofText_eq_error {text : String} {fault : ClassFileError}
    (failure : ofText text = .error fault) : fault = .invalidDescriptor text := by
  unfold ofText at failure
  split at failure
  · cases failure
  · exact (Except.error.inj failure).symm

end MethodDescriptor

end Lookout
