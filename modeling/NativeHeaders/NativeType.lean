import NativeHeaders.Descriptor
import NativeHeaders.Hierarchy

/-! # Types of native declarations

The C types in which the values of field types are passed. Strings, class objects and throwable objects have
types of their own, and so have arrays of primitive elements; whether a class is throwable is asked of a
`Hierarchy`. -/

namespace NativeHeaders

/-- A type in the declaration of a native function. -/
inductive NativeType where
  /-- No value. -/
  | void
  /-- A primitive value. -/
  | primitive (type : PrimitiveType)
  /-- An array of primitive values. -/
  | primitiveArray (element : PrimitiveType)
  /-- A string. -/
  | string
  /-- A class object. -/
  | classObject
  /-- A throwable object. -/
  | throwable
  /-- Any other object. -/
  | object
  /-- An array of objects. -/
  | objectArray
deriving DecidableEq, Repr

namespace NativeType

/-- The name of the type in C. -/
def name : NativeType → String
  | .void => "void"
  | .primitive type => "j" ++ type.keyword
  | .primitiveArray element => "j" ++ element.keyword ++ "Array"
  | .string => "jstring"
  | .classObject => "jclass"
  | .throwable => "jthrowable"
  | .object => "jobject"
  | .objectArray => "jobjectArray"

variable {σ : Type}

/-- The type in which values of a field type are passed. -/
def ofFieldType (hierarchy : Hierarchy σ) (type : FieldType) (state : σ) : NativeType × σ :=
  match type with
  | .primitive type => (.primitive type, state)
  | .array (.primitive element) => (.primitiveArray element, state)
  | .array _ => (.objectArray, state)
  | .object className =>
    if className = "java/lang/String" then (.string, state)
    else if className = "java/lang/Class" then (.classObject, state)
    else match hierarchy.isThrowable className state with
      | (true, state) => (.throwable, state)
      | (false, state) => (.object, state)

/-- The type in which the result of a method is passed. -/
def ofReturnType (hierarchy : Hierarchy σ) (type : ReturnType) (state : σ) : NativeType × σ :=
  match type with
  | .void => (.void, state)
  | .value type => ofFieldType hierarchy type state

/-- The types in which parameters are passed, asked for in order. -/
def ofParameters (hierarchy : Hierarchy σ) : List FieldType → σ → List NativeType × σ
  | [], state => ([], state)
  | type :: types, state =>
    let (first, state) := ofFieldType hierarchy type state
    let (rest, state) := ofParameters hierarchy types state
    (first :: rest, state)

end NativeType

end NativeHeaders
