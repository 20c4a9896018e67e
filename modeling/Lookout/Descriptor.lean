/-
# Descriptors

The types of fields and methods: what they are, how many stack slots their
values take, and how they are written. Slots are counted in 16 bits. Reading
the written form is in `Lookout.Descriptor.Grammar`. The types here may be built
freely, so they also contain values that no class file can name, such as an
object type with an empty name.
-/

namespace Lookout

/-- The type of a value. -/
inductive FieldType where
  | byte
  | char
  | double
  | float
  | int
  | long
  | short
  | boolean
  /-- An instance of the class with this internal (slash separated) name. -/
  | object (name : String)
  | array (element : FieldType)
  deriving DecidableEq

namespace FieldType

/-- Stack or local variable slots that a value takes: two for the 64 bit
numbers, one for everything else, arrays of 64 bit numbers included. -/
def slots : FieldType → UInt16
  | .long | .double => 2
  | _ => 1

/-- The characters of the written form. -/
def chars : FieldType → List Char
  | .byte => ['B']
  | .char => ['C']
  | .double => ['D']
  | .float => ['F']
  | .int => ['I']
  | .long => ['J']
  | .short => ['S']
  | .boolean => ['Z']
  | .object name => 'L' :: (name.toList ++ [';'])
  | .array element => '[' :: element.chars

/-- The written form. -/
def text (type : FieldType) : String := String.ofList type.chars

/-- How many arrays are nested around the innermost element. -/
def dimensions : FieldType → Nat
  | .array element => element.dimensions + 1
  | _ => 0

/-- The type inside all arrays. -/
def innermost : FieldType → FieldType
  | .array element => element.innermost
  | type => type

/-- The type with `depth` arrays around it. -/
def nested (depth : Nat) (type : FieldType) : FieldType :=
  Nat.repeat FieldType.array depth type

end FieldType

/-- What a method leaves behind: nothing, or one value. -/
inductive ReturnType where
  | void
  | value (type : FieldType)
  deriving DecidableEq

namespace ReturnType

/-- Stack slots taken by what is returned. -/
def slots : ReturnType → UInt16
  | .void => 0
  | .value type => type.slots

/-- The characters of the written form. -/
def chars : ReturnType → List Char
  | .void => ['V']
  | .value type => type.chars

/-- The written form. -/
def text (type : ReturnType) : String := String.ofList type.chars

end ReturnType

/-- The parameter types and return type that tell one overload from another. -/
structure MethodDescriptor where
  parameters : List FieldType
  returns : ReturnType
  deriving DecidableEq

namespace MethodDescriptor

/-- Slots taken by the arguments, without any receiver. Nothing limits how many
parameters there are, and the sum of more than 65535 slots starts again at 0. -/
def parameterSlots (descriptor : MethodDescriptor) : UInt16 :=
  descriptor.parameters.foldl (fun total type => total + type.slots) 0

/-- The characters of the written form: the parameters in parentheses, then
what is returned. -/
def chars (descriptor : MethodDescriptor) : List Char :=
  '(' :: (descriptor.parameters.flatMap FieldType.chars ++
    ')' :: descriptor.returns.chars)

/-- The written form. -/
def text (descriptor : MethodDescriptor) : String := String.ofList descriptor.chars

end MethodDescriptor

end Lookout
