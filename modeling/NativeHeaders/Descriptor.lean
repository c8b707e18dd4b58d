/-! # Types of fields and methods

The types that descriptors spell, and their spelling: one letter for a primitive type, `L` name `;` for a
class, `[` for an array of what follows, and for a method the parameters in parentheses followed by the
result. `Descriptor.Reader` reads the spelling back. -/

namespace NativeHeaders

/-- The types whose values are no objects. -/
inductive PrimitiveType where
  | boolean | byte | char | short | int | long | float | double
deriving DecidableEq, Repr

namespace PrimitiveType

/-- Every primitive type. -/
def all : List PrimitiveType := [.boolean, .byte, .char, .short, .int, .long, .float, .double]

/-- The letter that spells the type in a descriptor. -/
def code : PrimitiveType → Char
  | .boolean => 'Z'
  | .byte => 'B'
  | .char => 'C'
  | .short => 'S'
  | .int => 'I'
  | .long => 'J'
  | .float => 'F'
  | .double => 'D'

/-- The keyword for the type in source text. -/
def keyword : PrimitiveType → String
  | .boolean => "boolean"
  | .byte => "byte"
  | .char => "char"
  | .short => "short"
  | .int => "int"
  | .long => "long"
  | .float => "float"
  | .double => "double"

/-- The type a letter spells. -/
def ofCode? : Char → Option PrimitiveType
  | 'Z' => some .boolean
  | 'B' => some .byte
  | 'C' => some .char
  | 'S' => some .short
  | 'I' => some .int
  | 'J' => some .long
  | 'F' => some .float
  | 'D' => some .double
  | _ => none

/-- The letter of a primitive type names the type. -/
@[simp] theorem ofCode?_code (type : PrimitiveType) : ofCode? type.code = some type := by
  cases type <;> rfl

/-- Only the letter of a type spells it. -/
theorem code_of_ofCode? {c : Char} {type : PrimitiveType} (h : ofCode? c = some type) :
    type.code = c := by
  unfold ofCode? at h
  split at h <;> cases h <;> rfl

end PrimitiveType

/-- The type of a field or of a parameter. -/
inductive FieldType where
  /-- A primitive type. -/
  | primitive (type : PrimitiveType)
  /-- The class with the given internal name. -/
  | object (className : String)
  /-- Arrays of the given elements. -/
  | array (element : FieldType)
deriving DecidableEq, Repr

namespace FieldType

/-- How the type is spelled. -/
def descriptor : FieldType → String
  | .primitive type => type.code.toString
  | .object className => "L" ++ className ++ ";"
  | .array element => "[" ++ element.descriptor

/-- The number of array dimensions around the innermost element. -/
def dimensions : FieldType → Nat
  | .array element => element.dimensions + 1
  | _ => 0

/-- The type of the innermost elements. -/
def innermost : FieldType → FieldType
  | .array element => element.innermost
  | type => type

/-- The arrays of `type` with the given number of dimensions around it. -/
def nested : Nat → FieldType → FieldType
  | 0, type => type
  | dimensions + 1, type => .array (nested dimensions type)

end FieldType

/-- What a method gives back. -/
inductive ReturnType where
  /-- Nothing. -/
  | void
  /-- A value of the given type. -/
  | value (type : FieldType)
deriving DecidableEq, Repr

/-- How the result is spelled. -/
def ReturnType.descriptor : ReturnType → String
  | .void => "V"
  | .value type => type.descriptor

/-- The types of the parameters and of the result of a method. -/
structure MethodDescriptor where
  /-- The types of the parameters in order. -/
  parameters : List FieldType
  /-- What the method gives back. -/
  returnType : ReturnType
deriving DecidableEq, Repr

namespace MethodDescriptor

/-- The spelling of the parameters, one after the other. -/
def parameterDescriptors (method : MethodDescriptor) : String :=
  String.join (method.parameters.map FieldType.descriptor)

/-- How the types of the method are spelled. -/
def descriptor (method : MethodDescriptor) : String :=
  "(" ++ method.parameterDescriptors ++ ")" ++ method.returnType.descriptor

end MethodDescriptor

end NativeHeaders
