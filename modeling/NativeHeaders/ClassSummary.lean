import NativeHeaders.Constant
import NativeHeaders.Descriptor

/-! # What a header needs of a class

A `ClassSummary` holds the name of a class, its superclass, its numeric constants, and its native methods.
Methods of one name stand together, in the order in which the names came up, and no two of them have the same
types; a name with more than one method is overloaded. -/

namespace NativeHeaders

/-- A method whose body is native. -/
structure NativeMethod where
  /-- The name of the method. -/
  name : String
  /-- The types of the method. -/
  types : MethodDescriptor
  /-- Whether the method belongs to the class and not to its objects. -/
  isStatic : Bool
deriving DecidableEq, Repr

/-- The native methods of one name. -/
structure MethodGroup where
  /-- The name of the methods. -/
  name : String
  /-- The methods in the order in which they came up. -/
  methods : List NativeMethod
deriving DecidableEq, Repr

namespace MethodGroup

/-- Whether a method of the group has the given types. -/
def hasTypes (group : MethodGroup) (types : MethodDescriptor) : Bool :=
  group.methods.any (·.types = types)

/-- The methods, each with whether it is one of several. -/
def flagged (group : MethodGroup) : List (NativeMethod × Bool) :=
  group.methods.map fun method => (method, decide (group.methods.length > 1))

/-- The groups with a method added to the group of its name, and whether it was added: not if the group has a
method with the same types. -/
def insert (method : NativeMethod) : List MethodGroup → List MethodGroup × Bool
  | [] => ([{ name := method.name, methods := [method] }], true)
  | group :: groups =>
    if group.name = method.name then
      if group.hasTypes method.types then (group :: groups, false)
      else ({ group with methods := group.methods ++ [method] } :: groups, true)
    else
      let (groups, isAdded) := insert method groups
      (group :: groups, isAdded)

end MethodGroup

/-- The facts about a class that its header shows. -/
structure ClassSummary where
  /-- The internal name of the class. -/
  name : String
  /-- The internal name of the superclass, if there is one. -/
  superName : Option String
  /-- The native methods, grouped by name. -/
  groups : List MethodGroup := []
  /-- The numeric constants in order. -/
  constants : List ConstantField := []
deriving DecidableEq, Repr

namespace ClassSummary

/-- The summary with a native method added, and whether it was added. -/
def addMethod (summary : ClassSummary) (method : NativeMethod) : ClassSummary × Bool :=
  let (groups, isAdded) := MethodGroup.insert method summary.groups
  ({ summary with groups }, isAdded)

/-- The summary with a constant added. -/
def addConstant (summary : ClassSummary) (field : ConstantField) : ClassSummary :=
  { summary with constants := summary.constants ++ [field] }

/-- The native methods, each with whether its name is overloaded. -/
def methods (summary : ClassSummary) : List (NativeMethod × Bool) :=
  summary.groups.flatMap MethodGroup.flagged

/-- Whether there is nothing to declare. -/
def isEmpty (summary : ClassSummary) : Bool := summary.groups.isEmpty && summary.constants.isEmpty

/-- The summary with the given constants and methods added in order. -/
def withMembers (summary : ClassSummary) (constants : List ConstantField)
    (methods : List NativeMethod) : ClassSummary :=
  methods.foldl (fun summary method => (summary.addMethod method).1)
    { summary with constants := summary.constants ++ constants }

end ClassSummary

end NativeHeaders
