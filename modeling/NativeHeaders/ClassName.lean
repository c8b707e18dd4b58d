import NativeHeaders.Text.Segments

/-! # Names of classes

A class has an internal name, the one class files use (`java/lang/String`), and a binary name with dots
(`java.lang.String`). A name asked for may also say in which module the class is meant to be found
(`java.base/java.lang.String`). `ClassName.parse` accepts the three spellings and `ClassName.ofInternal`
the first one only. -/

namespace NativeHeaders

/-- Why a text does not name a class. -/
inductive NameError where
  /-- There is no text. -/
  | empty
  /-- The text, or its class part, is no name. -/
  | illegalClass (input : String)
  /-- What stands before the slash is no name of a module. -/
  | illegalModule (moduleName input : String)
deriving DecidableEq, Repr

/-- The sentence that reports the error. -/
def NameError.message : NameError → String
  | .empty => "class name is empty"
  | .illegalClass input => s!"illegal class name '{input}'"
  | .illegalModule moduleName input => s!"illegal module name '{moduleName}' in '{input}'"

/-- The name of a class, with the module it is asked for in. -/
structure ClassName where
  /-- Packages and class name, with a slash between neighbours. -/
  internal : String
  /-- The module in front of the name, if one was given. -/
  moduleHint : Option String := none
deriving DecidableEq, Repr

namespace ClassName

/-! ### The grammar of names -/

/-- Characters that no name of a class or module holds. -/
def isForbidden (c : Char) : Bool := c = '\\' || c = ';' || c = '['

/-- Characters that end a simple name. -/
def endsSimple (c : Char) : Bool := c = '.' || c = ';' || c = '[' || c = '/'

/-- A simple name has a character and none that ends it. -/
def simpleChars (chars : List Char) : Bool := !chars.isEmpty && chars.all (!endsSimple ·)

/-- A full name consists of simple names with a dot between neighbours. -/
def fullChars (chars : List Char) : Bool :=
  chars.all (!isForbidden ·) && (Text.segments '.' chars).all simpleChars

/-- An internal name consists of simple names with a slash between neighbours. -/
def internalChars (chars : List Char) : Bool :=
  chars.all (!isForbidden ·) && (Text.segments '/' chars).all simpleChars

/-- Whether a text is a simple name. -/
def isSimple (text : String) : Bool := simpleChars text.toList

/-- Whether a text is a full name. -/
def isFull (text : String) : Bool := fullChars text.toList

/-- Whether a text is an internal name. -/
def isInternal (text : String) : Bool := internalChars text.toList

/-- Whether a text names a method: a simple name without angle brackets, or one of the two names
reserved for initialisers. -/
def isMethod (text : String) : Bool :=
  text = "<init>" || text = "<clinit>" ||
    (isSimple text && text.toList.all fun c => c ≠ '<' && c ≠ '>')

/-! ### Reading names -/

/-- The class with the given internal name. -/
def ofInternal (text : String) : Except NameError ClassName :=
  if text.isEmpty then .error .empty
  else if isInternal text then .ok { internal := text }
  else .error (.illegalClass text)

/-- The class with the given full name, found in the given module; `input` is what was asked for. -/
def ofFull (moduleHint : Option String) (input text : String) : Except NameError ClassName :=
  if isFull text then .ok { internal := Text.substituted '.' '/' text, moduleHint }
  else .error (.illegalClass input)

/-- The class a text asks for: a full name, an internal name, or a module, a slash and a full name.
A text with both a slash and a dot is always of the third kind. -/
def parse (input : String) : Except NameError ClassName :=
  if input.isEmpty then .error .empty
  else if input.toList.any isForbidden then .error (.illegalClass input)
  else match Text.cutText '/' input with
    | none => ofFull none input input
    | some (moduleName, rest) =>
      if !input.toList.contains '.' then ofInternal input
      else if isFull moduleName then ofFull (some moduleName) input rest
      else .error (.illegalModule moduleName input)

/-! ### Writing names -/

/-- The name with dots, as it is written in source text. -/
def binary (name : ClassName) : String := Text.substituted '/' '.' name.internal

/-- The path of the class file below the place where a search starts. -/
def filePath (name : ClassName) : String := name.internal ++ ".class"

/-- The name as it is reported: the module and a slash if one was given, then the binary name. -/
def display (name : ClassName) : String :=
  match name.moduleHint with
  | none => name.binary
  | some moduleName => moduleName ++ "/" ++ name.binary

/-- Names are ordered by their internal names, and equal ones by their modules, no module first. -/
def precedes (first second : ClassName) : Bool :=
  if first.internal = second.internal then
    match first.moduleHint, second.moduleHint with
    | none, _ => true
    | some _, none => false
    | some a, some b => !decide (b < a)
  else decide (first.internal < second.internal)

/-- The names in order, each once. -/
def sorted (names : List ClassName) : List ClassName :=
  (names.mergeSort precedes).eraseReps

end ClassName

end NativeHeaders
