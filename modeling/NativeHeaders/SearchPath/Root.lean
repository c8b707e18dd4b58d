import NativeHeaders.ClassName
import NativeHeaders.SearchPath.ClassTree

/-! # Roots of a search

A search path has three kinds of roots: trees of class files, directories of modules, and Java installations. A
module is an archive, named for its file, and a name that asks for a module is looked for in this module only,
if there is one. -/

namespace NativeHeaders

/-- An archive in a directory of modules. -/
structure Module where
  /-- The name of the module. -/
  name : String
  /-- Its class files. -/
  tree : ClassTree

/-- A directory of modules. -/
structure ModuleDirectory where
  /-- The path of the directory. -/
  path : Path
  /-- The modules in the order of their file names. -/
  modules : List Module

namespace ModuleDirectory

/-- The modules in a directory. -/
def ofPath (files : FileSystem) (path : Path) : Except ResolveError ModuleDirectory := do
  let archives ← (files.filesIn path ClassTree.archiveExtensions).mapError (.unreadable path)
  let modules ← archives.mapM fun archive => do
    return { name := archive.stem, tree := ← ClassTree.ofArchive files archive }
  return { path, modules }

/-- The modules in which a class is looked for: the first one of the asked name, or all. -/
def searched (directory : ModuleDirectory) (name : ClassName) : List Module :=
  match name.moduleHint.bind fun hint => directory.modules.find? (·.name = hint) with
  | some found => [found]
  | none => directory.modules

/-- The class file of a class. -/
def find (directory : ModuleDirectory) (files : FileSystem) (name : ClassName) :
    Except ResolveError (Option ClassSource) :=
  (directory.searched name).findSomeM? fun searched => searched.tree.find files name.filePath

/-- The most class files that the modules can hold. -/
def capacity (directory : ModuleDirectory) (files : FileSystem) : Nat :=
  (directory.modules.map fun entry => entry.tree.capacity files).foldr (· + ·) 0

end ModuleDirectory

/-- Where a Java installation keeps its classes. -/
inductive InstallationLayout where
  /-- In a directory of modules. -/
  | modules (directory : ModuleDirectory)
  /-- In one archive. -/
  | archive (tree : ClassTree)

/-- A place where classes are looked for. -/
inductive Root where
  /-- A directory or archive with class files. -/
  | classes (tree : ClassTree)
  /-- A directory of modules. -/
  | modules (directory : ModuleDirectory)
  /-- A Java installation. -/
  | installation (home : Path) (layout : InstallationLayout)

namespace Root

/-! ### Opening -/

/-- The root for an entry of a class path; none if it is neither a directory nor an archive. -/
def ofClasses? (files : FileSystem) (path : Path) : Except ResolveError (Option Root) := do
  if files.isDirectory path then return some (.classes (← ClassTree.ofDirectory files path))
  else if ClassTree.isArchive files path then return some (.classes (← ClassTree.ofArchive files path))
  else return none

/-- The root for an entry of a module path; none if it is neither a directory nor an archive. -/
def ofModules? (files : FileSystem) (path : Path) : Except ResolveError (Option Root) := do
  if files.isDirectory path then return some (.modules (← ModuleDirectory.ofPath files path))
  else if ClassTree.isArchive files path then return some (.classes (← ClassTree.ofArchive files path))
  else return none

/-- The directory of modules in an installation. -/
def modulesPath : String := "jmods"

/-- Where an installation without modules may have its archive, the first choice first. -/
def archivePaths : List String := ["jre/lib/rt.jar", "lib/rt.jar"]

/-- The root for the installation in a directory; none if it keeps its classes in no known way. -/
def ofInstallation? (files : FileSystem) (home : Path) : Except ResolveError (Option Root) := do
  if files.isDirectory (home.join modulesPath) then
    let directory ← ModuleDirectory.ofPath files (home.join modulesPath)
    return some (.installation home (.modules directory))
  else match (archivePaths.map home.join).find? files.isFile with
    | none => return none
    | some path => return some (.installation home (.archive (← ClassTree.ofArchive files path)))

/-! ### Looking for classes -/

/-- The class file of a class. -/
def find (root : Root) (files : FileSystem) (name : ClassName) :
    Except ResolveError (Option ClassSource) :=
  match root with
  | .classes tree | .installation _ (.archive tree) => tree.find files name.filePath
  | .modules directory | .installation _ (.modules directory) => directory.find files name

/-- The trees in which a class is looked for, in order. -/
def treesFor (root : Root) (name : ClassName) : List ClassTree :=
  match root with
  | .classes tree | .installation _ (.archive tree) => [tree]
  | .modules directory | .installation _ (.modules directory) =>
    (directory.searched name).map Module.tree

/-- The most class files that the root can hold. -/
def capacity (root : Root) (files : FileSystem) : Nat :=
  match root with
  | .classes tree | .installation _ (.archive tree) => tree.capacity files
  | .modules directory | .installation _ (.modules directory) => directory.capacity files

/-- Whether the root is a Java installation. -/
def isInstallation : Root → Bool
  | .installation _ _ => true
  | _ => false

/-- The names of the modules of a directory of modules that is a root itself. -/
def moduleNames? : Root → Option (List String)
  | .modules directory => some (directory.modules.map Module.name)
  | _ => none

/-- The words for the root. -/
def description : Root → String
  | .classes tree => tree.description
  | .modules directory => "module path " ++ directory.path.text
  | .installation home _ => "runtime " ++ home.text

end Root

end NativeHeaders
