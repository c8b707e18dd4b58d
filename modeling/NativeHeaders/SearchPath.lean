import NativeHeaders.SearchPath.Expansion
import NativeHeaders.SearchPath.Installation
import NativeHeaders.SearchPath.Root

/-! # Search paths

A search path is a list of roots. The first root that holds a class wins, and a root that cannot be read ends
the search. -/

namespace NativeHeaders

/-- The places where classes are looked for, in order. -/
structure SearchPath where
  /-- The roots. -/
  roots : List Root := []

namespace SearchPath

/-- Whether there is nowhere to look. -/
def isEmpty (path : SearchPath) : Bool := path.roots.isEmpty

/-- The class file of a class. -/
def resolve (path : SearchPath) (files : FileSystem) (name : ClassName) :
    Except ResolveError (Option ClassSource) :=
  path.roots.findSomeM? fun root => root.find files name

/-- Without roots nothing is found, and nothing fails. -/
@[simp] theorem resolve_nil (files : FileSystem) (name : ClassName) :
    resolve { roots := [] } files name = .ok none := rfl

/-- The first root decides, unless it does not hold the class. -/
theorem resolve_cons (root : Root) (roots : List Root) (files : FileSystem) (name : ClassName) :
    resolve { roots := root :: roots } files name =
      match root.find files name with
      | .ok none => resolve { roots } files name
      | found => found := by
  simp only [resolve, List.findSomeM?_cons]
  cases root.find files name with
  | error cause => rfl
  | ok found => cases found <;> rfl

/-- The places where the class file of a class may stand: trees with names below them, in the order in which they
are looked at. -/
def places (path : SearchPath) (name : ClassName) : List (ClassTree × String) :=
  path.roots.flatMap fun root => (root.treesFor name).flatMap fun tree =>
    (tree.candidates name.filePath).map (tree, ·)

/-- Whether the search for a class comes to a file whose declared size no buffer can have. Reserving the buffer
then ends the program at once. -/
def comesToOverlong (path : SearchPath) (files : FileSystem) (name : ClassName) : Bool :=
  Search.comesTo (fun (tree, candidate) => tree.findExactly files candidate)
    (fun (tree, candidate) => tree.isOverlong candidate) (path.places name)

/-- The most classes that can be found. -/
def capacity (path : SearchPath) (files : FileSystem) : Nat :=
  (path.roots.map fun root => root.capacity files).foldr (· + ·) 0

/-- The words for the roots. -/
def descriptions (path : SearchPath) : List String := path.roots.map Root.description

/-! ### Opening -/

/-- What a search path is made of. -/
inductive Entry where
  /-- A directory or an archive. -/
  | classes (path : Path)
  /-- A directory of modules, or an archive. -/
  | modules (path : Path)
  /-- A Java installation: the one in a directory, or the one to which the environment leads. -/
  | installation (home : Option Path)
deriving DecidableEq, Repr

/-- The root for an entry, if there is one. -/
def rootFor? (files : FileSystem) (environment : Environment) :
    Entry → Except ResolveError (Option Root)
  | .classes path => Root.ofClasses? files path
  | .modules path => Root.ofModules? files path
  | .installation home =>
    match home.or (Installation.home? files environment) with
    | none => .ok none
    | some home => Root.ofInstallation? files home

/-- The search path with the roots for entries. -/
def ofEntries (files : FileSystem) (environment : Environment) (entries : List Entry) :
    Except ResolveError SearchPath := do
  let roots ← entries.mapM (rootFor? files environment)
  return { roots := roots.filterMap id }

end SearchPath

end NativeHeaders
