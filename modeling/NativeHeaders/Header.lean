import NativeHeaders.ClassSummary
import NativeHeaders.NativeType
import NativeHeaders.Symbol
import NativeHeaders.Text.Segments

/-! # C headers

The text of a header: a banner, then for each class that declares something a block inside an include guard,
with a macro for each constant and a prototype for each native method. The types of a prototype are found
first (`Prototype.ofMethod`), in the order result, parameters, because finding them may change the state of the
hierarchy; the text is then a function of summary and prototypes alone. -/

namespace NativeHeaders

/-- A native method with the types of its declaration. -/
structure Prototype where
  /-- The method. -/
  method : NativeMethod
  /-- Whether the name of the method is overloaded. -/
  isOverloaded : Bool
  /-- The type of the result. -/
  result : NativeType
  /-- The types of the parameters in order. -/
  parameters : List NativeType
deriving DecidableEq, Repr

namespace Prototype

variable {σ : Type}

/-- The prototype of a method. -/
def ofMethod (hierarchy : Hierarchy σ) (entry : NativeMethod × Bool) (state : σ) : Prototype × σ :=
  let (method, isOverloaded) := entry
  let (result, state) := NativeType.ofReturnType hierarchy method.types.returnType state
  let (parameters, state) := NativeType.ofParameters hierarchy method.types.parameters state
  ({ method, isOverloaded, result, parameters }, state)

/-- The prototypes of methods, one after the other. -/
def ofMethods (hierarchy : Hierarchy σ) : List (NativeMethod × Bool) → σ → List Prototype × σ
  | [], state => ([], state)
  | entry :: entries, state =>
    let (first, state) := ofMethod hierarchy entry state
    let (rest, state) := ofMethods hierarchy entries state
    (first :: rest, state)

/-- The symbol under which the method is linked. -/
def symbol (prototype : Prototype) (className : String) : String :=
  Symbol.ofMethod className prototype.method.name
    (if prototype.isOverloaded then some prototype.method.types else none)

/-- The types of everything that is passed: the environment, the class or object, the parameters. -/
def argumentTypes (prototype : Prototype) : List String :=
  "JNIEnv *" :: (if prototype.method.isStatic then "jclass" else "jobject") ::
    prototype.parameters.map NativeType.name

end Prototype

namespace Header

/-- The lines ahead of the first class. -/
def banner : String :=
  "/* DO NOT EDIT THIS FILE - it is machine generated */\n#include <jni.h>\n"

/-- The characters with each `_00024` shortened to `_`. -/
def shortenDollars (chars : List Char) : List Char :=
  chars.foldr (fun c rest =>
    match c, rest with
    | '_', '0' :: '0' :: '0' :: '2' :: '4' :: rest => '_' :: rest
    | c, rest => c :: rest) []

/-- The name of a class as its include guard shows it: the escaped name, in which a dollar sign leaves a bare
underscore. -/
def guardName (className : String) : String :=
  String.ofList (shortenDollars (Symbol.escapeChars className.toList))

/-- The name of a class as comments show it. -/
def readableName (className : String) : String :=
  String.ofList (className.toList.map fun c => if c = '.' || c = '/' || c = '$' then '_' else c)

/-- The name of the file for the header of one class. -/
def fileName (className : String) : String :=
  String.ofList (className.toList.map fun c => if c = '/' || c = '$' then '_' else c) ++ ".h"

/-- The name of the macro for a constant. -/
def macroName (className : String) (field : ConstantField) : String :=
  Symbol.escape className ++ "_" ++ field.name

/-- The lines that open the block of a class. -/
def opening (className : String) : String :=
  let guardName := guardName className
  "/* Header for class " ++ guardName ++ " */\n\n" ++
    "#ifndef _Included_" ++ guardName ++ "\n" ++
    "#define _Included_" ++ guardName ++ "\n" ++
    "#ifdef __cplusplus\nextern \"C\" \x7b\n#endif\n"

/-- The lines for a constant. -/
def constantLines (className : String) (field : ConstantField) : String :=
  let name := macroName className field
  "#undef " ++ name ++ "\n" ++ "#define " ++ name ++ " " ++ field.value.literal ++ "\n"

/-- The comment above a prototype. -/
def methodComment (className : String) (method : NativeMethod) : String :=
  "/*\n" ++
    " * Class:     " ++ readableName className ++ "\n" ++
    " * Method:    " ++ method.name ++ "\n" ++
    " * Signature: " ++ Text.substituted '$' '/' method.types.descriptor ++ "\n" ++
    " */\n"

/-- The lines for a native method. -/
def prototypeLines (className : String) (prototype : Prototype) : String :=
  methodComment className prototype.method ++
    "JNIEXPORT " ++ prototype.result.name ++ " JNICALL " ++ prototype.symbol className ++
    " (" ++ ", ".intercalate prototype.argumentTypes ++ ");\n\n"

/-- The lines that close the block of a class. -/
def closing : String := "#ifdef __cplusplus\n\x7d\n#endif\n#endif\n"

/-- The block of a class. -/
def block (summary : ClassSummary) (prototypes : List Prototype) : String :=
  opening summary.name ++
    String.join (summary.constants.map (constantLines summary.name)) ++
    String.join (prototypes.map (prototypeLines summary.name)) ++
    closing

variable {σ : Type}

/-- The block of a class whose types are asked of a hierarchy. -/
def renderBlock (hierarchy : Hierarchy σ) (summary : ClassSummary) (state : σ) : String × σ :=
  let (prototypes, state) := Prototype.ofMethods hierarchy summary.methods state
  (block summary prototypes, state)

/-- The blocks of classes, one after the other. -/
def renderBlocks (hierarchy : Hierarchy σ) : List ClassSummary → σ → List String × σ
  | [], state => ([], state)
  | summary :: summaries, state =>
    let (first, state) := renderBlock hierarchy summary state
    let (rest, state) := renderBlocks hierarchy summaries state
    (first :: rest, state)

/-- The header of one class, unless it declares nothing. -/
def renderOne (hierarchy : Hierarchy σ) (summary : ClassSummary) (state : σ) : Option String × σ :=
  if summary.isEmpty then (none, state)
  else
    let (text, state) := renderBlock hierarchy summary state
    (some (banner ++ text), state)

/-- One header for the classes that declare something, unless none does. -/
def renderMany (hierarchy : Hierarchy σ) (summaries : List ClassSummary) (state : σ) :
    Option String × σ :=
  match summaries.filter (!·.isEmpty) with
  | [] => (none, state)
  | summaries =>
    let (blocks, state) := renderBlocks hierarchy summaries state
    (some (banner ++ String.join blocks), state)

end Header

end NativeHeaders
