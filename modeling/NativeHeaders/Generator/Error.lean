import NativeHeaders.ClassFile.Reader
import NativeHeaders.SearchPath.Source

/-! # Errors of a generation

Why a class cannot be loaded, or a header not be written. -/

namespace NativeHeaders

/-- Why a class has no header. -/
inductive GenerationError where
  /-- No root has the class; the roots are given by their descriptions. -/
  | classNotFound (className : String) (searched : List String)
  /-- The class file is malformed. -/
  | malformed (className : String) (origin : Path) (cause : ClassFileError)
  /-- The search for the class failed. -/
  | search (cause : ResolveError)
  /-- A file cannot be read or written. -/
  | file (path : Path) (cause : IoError)
deriving DecidableEq, Repr

/-- The sentence that reports the error. -/
def GenerationError.message : GenerationError → String
  | .classNotFound className searched =>
    let roots := if searched.isEmpty then "no search roots configured" else "; ".intercalate searched
    s!"could not find class file for '{className}' (searched: {roots})"
  | .malformed className origin cause =>
    s!"malformed class file for '{className}' at {origin.text}: {cause.message}"
  | .search cause => cause.message
  | .file path cause => s!"IO error on {path.text}: {cause.message}"

/-- The messages of the error and of the errors that caused it, the outermost first. -/
def GenerationError.chain (error : GenerationError) : List String :=
  error.message :: match error with
    | .classNotFound _ _ => []
    | .malformed _ _ cause => [cause.message]
    | .search cause => [cause.cause]
    | .file _ cause => [cause.message]

end NativeHeaders
