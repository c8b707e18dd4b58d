import NativeHeaders.SearchPath.Manifest
import NativeHeaders.SearchPath.Release
import NativeHeaders.SearchPath.Source

/-! # Trees of class files

Class files stand below a directory or in an archive, each at the path of its class. If the manifest of such a
tree says so, there may be versions of a class file for later releases, and the latest one counts. Which releases
have versions is found out when a tree is opened; class files are looked for in the file system as it is when
they are asked for. -/

namespace NativeHeaders

/-- An archive that was opened. -/
structure OpenedArchive where
  /-- The location of the file. -/
  location : Location
  /-- The contents of the file when it was opened. -/
  opened : ByteArray
  /-- The directory of the archive as it was then. -/
  archive : Archive
  /-- The directory of the archive below which its classes stand, empty or with a slash at its end. -/
  base : String

/-- Where the files of a tree are kept. -/
inductive TreeStorage where
  /-- In a directory. -/
  | directory
  /-- In an archive. -/
  | archive (archive : OpenedArchive)

/-- A directory or archive with class files. -/
structure ClassTree where
  /-- The path of the directory or archive. -/
  path : Path
  /-- Where its files are kept. -/
  storage : TreeStorage
  /-- The releases that have versions of their own, the latest first. -/
  releases : List Nat

namespace OpenedArchive

/-- The extension of archives whose classes stand below a directory. -/
def basedExtension : String := "jmod"

/-- The directory below which classes stand in the archive at a path. -/
def baseFor (path : Path) : String := if path.hasExtension [basedExtension] then "classes/" else ""

/-- The archive that a file is. -/
def ofFile (files : FileSystem) (path : Path) : Except ResolveError OpenedArchive := do
  let location ← (files.resolve path).mapError (.unreadable path)
  let opened ← (files.read path).mapError (.unreadable path)
  let archive ← (Archive.ofBytes opened).mapError (.refused path)
  return { location, opened, archive, base := baseFor path }

/-- The bytes of the archive as they are now. A file that is gone keeps the bytes it had when it was opened. -/
def bytes (opened : OpenedArchive) (files : FileSystem) : ByteArray :=
  (files.contentAt? opened.location).getD opened.opened

/-- The text of the manifest, if there is one that can be read. -/
def manifest? (opened : OpenedArchive) (path : Path) : Except ResolveError (Option String) := do
  match ← (opened.archive.readable? (opened.base ++ Manifest.path)).mapError (.refused path) with
  | none => return none
  | some entry => return (entry.content? opened.opened).bind String.fromUTF8?

/-- The names directly below the directory of versions that have something below them. -/
def versionNames (opened : OpenedArchive) : List String :=
  opened.archive.names.filterMap fun name => do
    let below ← Text.afterPrefix? (opened.base ++ Manifest.versionsPath).toList name.toList
    let (version, _) ← Text.cutFirst '/' below
    return String.ofList version

/-- The file with the given name below the base. -/
def find (opened : OpenedArchive) (files : FileSystem) (path : Path) (name : String) :
    Except ResolveError (Option ClassSource) := do
  let name := opened.base ++ name
  match ← (opened.archive.readable? name).mapError (.refused path) with
  | none => return none
  | some entry =>
    if !entry.isFile then return none
    match entry.content? (opened.bytes files) with
    | none => throw (.damaged path)
    | some bytes => return some { bytes, origin := ⟨path.text ++ "!/" ++ name⟩ }

/-- Whether the file with the given name below the base cannot be read because no buffer can have the size that
the archive declares for it. Every smaller buffer is taken to be at hand. -/
def isOverlong (opened : OpenedArchive) (name : String) : Bool :=
  match opened.archive.readable? (opened.base ++ name) with
  | .ok (some entry) => entry.isFile && entry.isOverlong
  | _ => false

end OpenedArchive

namespace ClassTree

/-! ### Opening -/

/-- The extensions of archives. -/
def archiveExtensions : List String := ["jar", "zip", "jmod"]

/-- Whether a path leads to an archive, by its extension. -/
def isArchive (files : FileSystem) (path : Path) : Bool :=
  files.isFile path && path.hasExtension archiveExtensions

/-- The text of the manifest in a directory, if there is one. -/
def manifestIn? (files : FileSystem) (path : Path) : Except ResolveError (Option String) :=
  match files.read (path.join Manifest.path) with
  | .ok bytes => .ok (some (Text.lossyText bytes))
  | .error .notFound => .ok none
  | .error cause => .error (.unreadable (path.join Manifest.path) cause)

/-- The names of the directories directly below the directory of versions. -/
def versionNamesIn (files : FileSystem) (path : Path) : Except ResolveError (List String) :=
  let versions := path.join Manifest.versionsPath
  match files.list versions with
  | .ok names => .ok (names.filter fun name => files.isDirectory (versions.join name))
  | .error .notFound => .ok []
  | .error cause => .error (.unreadable versions cause)

/-- The tree below a directory. -/
def ofDirectory (files : FileSystem) (path : Path) : Except ResolveError ClassTree := do
  let manifest ← manifestIn? files path
  let names ← if manifest.any Manifest.isMultiRelease then versionNamesIn files path else pure []
  return { path, storage := .directory, releases := Release.ofNames names }

/-- The tree in an archive. -/
def ofArchive (files : FileSystem) (path : Path) : Except ResolveError ClassTree := do
  let opened ← OpenedArchive.ofFile files path
  let manifest ← opened.manifest? path
  let names := if manifest.any Manifest.isMultiRelease then opened.versionNames else []
  return { path, storage := .archive opened, releases := Release.ofNames names }

/-! ### Looking for class files -/

/-- The name below the tree of the version for a release. -/
def versionName (release : Nat) (name : String) : String :=
  Manifest.versionsPath ++ toString release ++ "/" ++ name

/-- The names below the tree under which a file is looked for, in order. -/
def candidates (tree : ClassTree) (name : String) : List String :=
  tree.releases.map (versionName · name) ++ [name]

/-- The file at a path below a directory. -/
def findBelow (files : FileSystem) (directory : Path) (name : String) :
    Except ResolveError (Option ClassSource) :=
  let origin := directory.join name
  if files.isFile origin then
    match files.read origin with
    | .ok bytes => .ok (some { bytes, origin })
    | .error cause => .error (.unreadable origin cause)
  else .ok none

/-- The file with exactly the given name below the tree. -/
def findExactly (tree : ClassTree) (files : FileSystem) (name : String) :
    Except ResolveError (Option ClassSource) :=
  match tree.storage with
  | .directory => findBelow files tree.path name
  | .archive opened => opened.find files tree.path name

/-- Whether no buffer can have the declared size of the file with exactly the given name below the tree. -/
def isOverlong (tree : ClassTree) (name : String) : Bool :=
  match tree.storage with
  | .directory => false
  | .archive opened => opened.isOverlong name

/-- The latest version of the file with the given name. -/
def find (tree : ClassTree) (files : FileSystem) (name : String) :
    Except ResolveError (Option ClassSource) :=
  (tree.candidates name).findSomeM? (tree.findExactly files)

/-- The most class files that the tree can hold, with a file counted once for each name it may be found under. -/
def capacity (tree : ClassTree) (files : FileSystem) : Nat :=
  (tree.releases.length + 1) *
    match tree.storage with
    | .directory => files.nodes.length
    | .archive opened => opened.archive.entries.length

/-- The words for the tree. -/
def description (tree : ClassTree) : String :=
  let kind := match tree.storage with
    | .directory => "directory "
    | .archive _ => "archive "
  let releases :=
    if tree.releases.isEmpty then ""
    else " (multi-release: " ++ ", ".intercalate (tree.releases.map toString) ++ ")"
  kind ++ tree.path.text ++ releases

end ClassTree

end NativeHeaders
