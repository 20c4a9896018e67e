/-
# Reading descriptors

One type is read off the front of a character list and the rest handed back.
Arrays nest at most 255 deep. The name of an object type runs to the first
semicolon, is not empty, and contains neither a dot nor an opening bracket.
Whatever goes wrong, the report carries the whole text that was to be read.
-/

import Lookout.Descriptor
import Lookout.ClassFile.Error

namespace Lookout

namespace FieldType

/-- The deepest nesting of arrays that a descriptor may spell. -/
def maxDimensions : Nat := 255

/-- Whether the characters may name the class of an object type. The semicolon
needs no mention: it ends the name. -/
def isObjectName (name : List Char) : Bool :=
  !name.isEmpty && name.all fun character => character != '.' && character != '['

/-- Read an object type behind its `L`. -/
def readObject (text : List Char) : Option (FieldType × List Char) :=
  let name := text.takeWhile (· != ';')
  match text.dropWhile (· != ';') with
  | [] => none
  | _ :: rest => if isObjectName name then some (.object (String.ofList name), rest) else none

/-- Read a type that is not an array. -/
def readInnermost : List Char → Option (FieldType × List Char)
  | 'B' :: rest => some (.byte, rest)
  | 'C' :: rest => some (.char, rest)
  | 'D' :: rest => some (.double, rest)
  | 'F' :: rest => some (.float, rest)
  | 'I' :: rest => some (.int, rest)
  | 'J' :: rest => some (.long, rest)
  | 'S' :: rest => some (.short, rest)
  | 'Z' :: rest => some (.boolean, rest)
  | 'L' :: rest => readObject rest
  | _ => none

/-- Read one type off the front. -/
def read (text : List Char) : Option (FieldType × List Char) :=
  let depth := (text.takeWhile (· == '[')).length
  if depth ≤ maxDimensions then
    (readInnermost (text.dropWhile (· == '['))).map fun (type, rest) => (type.nested depth, rest)
  else none

/-- An object type takes at least its semicolon off the text. -/
theorem length_lt_of_readObject {text rest : List Char} {type : FieldType}
    (success : readObject text = some (type, rest)) : rest.length < text.length := by
  have shrink : (text.dropWhile (· != ';')).length ≤ text.length :=
    (List.dropWhile_sublist _).length_le
  unfold readObject at success
  split at success
  · simp at success
  · rename_i head tail found
    rw [found] at shrink
    simp only at success
    split at success
    · simp only [Option.some.injEq, Prod.mk.injEq] at success
      rw [← success.2]
      rw [List.length_cons] at shrink
      omega
    · simp at success

/-- A type that is not an array takes at least one character off the text. -/
theorem length_lt_of_readInnermost {text rest : List Char} {type : FieldType}
    (success : readInnermost text = some (type, rest)) : rest.length < text.length := by
  unfold readInnermost at success
  split at success
  case h_9 _ tail =>
    have shorter := length_lt_of_readObject success
    simp only [List.length_cons]
    omega
  case h_10 => simp at success
  all_goals
    simp only [Option.some.injEq, Prod.mk.injEq] at success
    rw [← success.2]
    simp

/-- A type takes at least one character off the text. -/
theorem length_lt_of_read {text rest : List Char} {type : FieldType}
    (success : read text = some (type, rest)) : rest.length < text.length := by
  have shrink : (text.dropWhile (· == '[')).length ≤ text.length :=
    (List.dropWhile_sublist _).length_le
  unfold read at success
  simp only at success
  split at success
  · rw [Option.map_eq_some_iff] at success
    obtain ⟨⟨inner, tail⟩, found, same⟩ := success
    simp only [Prod.mk.injEq] at same
    have shorter := length_lt_of_readInnermost found
    rw [← same.2]
    omega
  · simp at success

/-- The type that the text spells from end to end. -/
def ofText (text : String) : Except ClassFileError FieldType :=
  match read text.toList with
  | some (type, []) => .ok type
  | _ => .error (.invalidDescriptor text)

end FieldType

namespace MethodDescriptor

/-- Read parameter types up to the closing parenthesis, behind those already
`done`, which are kept in reverse. -/
def readParametersOnto (done : List FieldType) (text : List Char) :
    Option (List FieldType × List Char) :=
  match text with
  | [] => none
  | ')' :: rest => some (done.reverse, rest)
  | text =>
    match found : FieldType.read text with
    | none => none
    | some (type, rest) =>
      have := FieldType.length_lt_of_read found
      readParametersOnto (type :: done) rest
termination_by text.length

/-- Read what is returned, which is all of the text. -/
def readReturn (text : List Char) : Option ReturnType :=
  if text = ['V'] then some .void
  else
    match FieldType.read text with
    | some (type, []) => some (.value type)
    | _ => none

/-- Read a whole descriptor. -/
def read : List Char → Option MethodDescriptor
  | '(' :: text =>
    (readParametersOnto [] text).bind fun (parameters, rest) =>
      (readReturn rest).map fun returns => ⟨parameters, returns⟩
  | _ => none

/-- The descriptor that the text spells from end to end. -/
def ofText (text : String) : Except ClassFileError MethodDescriptor :=
  match read text.toList with
  | some descriptor => .ok descriptor
  | none => .error (.invalidDescriptor text)

end MethodDescriptor

end Lookout
