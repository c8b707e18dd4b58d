import NativeHeaders.FileSystem.Path

/-! # File systems

A file system is a list of nodes, each at a location. A path is followed part by part, from the root directory or
from the working directory, and every part but the last has to lead to a directory. The order of the list is the
order in which directories list their entries. The root directory is always there. -/

namespace NativeHeaders

/-- A place in a file system: names of directories from the root on, and the last name. -/
abbrev Location := List String

/-- The contents of files are compared byte by byte, whatever else can decide whether they are equal.
-/
instance contentsDecidableEq : DecidableEq ByteArray := ByteArray.instDecidableEq

/-- What stands at a location. -/
inductive Node where
  /-- A directory. -/
  | directory
  /-- A file. -/
  | file (content : ByteArray) (isExecutable : Bool)
deriving DecidableEq

/-- Why something cannot be done with a path. -/
inductive IoError where
  /-- Nothing is there. -/
  | notFound
  /-- Something that is no directory stands in the way. -/
  | notADirectory
  /-- A directory stands where a file is required. -/
  | isADirectory
  /-- Something is there already. -/
  | alreadyExists
  /-- The path, or one of its parts, is too long. -/
  | nameTooLong
  /-- The path holds the character U+0000. -/
  | nulInPath
  /-- The contents are no UTF-8. -/
  | invalidText
deriving DecidableEq, Repr

/-- The words for the error. -/
def IoError.message : IoError → String
  | .notFound => "No such file or directory (os error 2)"
  | .notADirectory => "Not a directory (os error 20)"
  | .isADirectory => "Is a directory (os error 21)"
  | .alreadyExists => "File exists (os error 17)"
  | .nameTooLong => "File name too long (os error 36)"
  | .nulInPath => "file name contained an unexpected NUL byte"
  | .invalidText => "stream did not contain valid UTF-8"

/-- Files and directories, and the directory in which relative paths start. -/
structure FileSystem where
  /-- What stands where, in listing order. -/
  nodes : List (Location × Node)
  /-- The location of the working directory. -/
  workingDirectory : Location
deriving DecidableEq

namespace FileSystem

/-- The longest path in bytes. -/
def maxPathBytes : Nat := 4095

/-- The longest part of a path in bytes. -/
def maxNameBytes : Nat := 255

/-! ### Following paths -/

/-- What stands at a location. -/
def node? (files : FileSystem) (location : Location) : Option Node :=
  if location = [] then some .directory else files.nodes.lookup location

/-- Checks that a location is a directory. -/
def requireDirectory (files : FileSystem) (location : Location) : Except IoError Unit :=
  match files.node? location with
  | none => .error .notFound
  | some (.file _ _) => .error .notADirectory
  | some .directory => .ok ()

/-- The location to which parts of a path lead from `current`. -/
def walk (files : FileSystem) (current : Location) : List String → Except IoError Location
  | [] => .ok current
  | part :: rest => do
    files.requireDirectory current
    if Path.isIdle part then walk files current rest
    else if part = ".." then walk files current.dropLast rest
    else if part.utf8ByteSize > maxNameBytes then throw .nameTooLong
    else if (files.node? (current ++ [part])).isNone then throw .notFound
    else walk files (current ++ [part]) rest

/-- Checks that the text of a path can be one. -/
def checkPath (path : Path) : Except IoError Unit :=
  if path.text.toList.contains '\x00' then .error .nulInPath
  else if path.text.utf8ByteSize > maxPathBytes then .error .nameTooLong
  else if path.text.isEmpty then .error .notFound
  else .ok ()

/-- Where a path starts. -/
def start (files : FileSystem) (path : Path) : Location :=
  if path.isAbsolute then [] else files.workingDirectory

/-- The location to which a path leads, if something is there. -/
def resolve (files : FileSystem) (path : Path) : Except IoError Location := do
  checkPath path
  files.walk (files.start path) path.parts

/-- What a path leads to. -/
def nodeAt? (files : FileSystem) (path : Path) : Option Node :=
  match files.resolve path with
  | .error _ => none
  | .ok location => files.node? location

/-- Whether a path leads to a file. -/
def isFile (files : FileSystem) (path : Path) : Bool :=
  match files.nodeAt? path with
  | some (.file _ _) => true
  | _ => false

/-- Whether a path leads to a directory. -/
def isDirectory (files : FileSystem) (path : Path) : Bool := files.nodeAt? path = some .directory

/-- Whether a path leads to something. -/
def exists? (files : FileSystem) (path : Path) : Bool := (files.nodeAt? path).isSome

/-- Whether a path leads to a file that may be executed. -/
def isExecutable (files : FileSystem) (path : Path) : Bool :=
  match files.nodeAt? path with
  | some (.file _ isExecutable) => isExecutable
  | _ => false

/-- The path of a location from the root on. -/
def absolutePath (location : Location) : Path := ⟨"/" ++ "/".intercalate location⟩

/-! ### Reading -/

/-- The contents of the file at a location. -/
def contentAt? (files : FileSystem) (location : Location) : Option ByteArray :=
  match files.node? location with
  | some (.file content _) => some content
  | _ => none

/-- The contents of a file. -/
def read (files : FileSystem) (path : Path) : Except IoError ByteArray := do
  match files.contentAt? (← files.resolve path) with
  | some content => return content
  | none => throw .isADirectory

/-- The contents of a file as a text. -/
def readText (files : FileSystem) (path : Path) : Except IoError String := do
  match String.fromUTF8? (← files.read path) with
  | some text => return text
  | none => throw .invalidText

/-- The name of the entry of `directory` that stands at a location. -/
def entryName? (directory location : Location) : Option String :=
  match Text.afterPrefix? directory location with
  | some [name] => some name
  | _ => none

/-- The names of the entries of the directory at a location. -/
def entriesAt (files : FileSystem) (directory : Location) : List String :=
  files.nodes.filterMap fun (location, _) => entryName? directory location

/-- The names of the entries of a directory. -/
def list (files : FileSystem) (path : Path) : Except IoError (List String) := do
  let location ← files.resolve path
  files.requireDirectory location
  return files.entriesAt location

/-- The paths of the files with one of the given extensions in a directory, in the order of their names. -/
def filesIn (files : FileSystem) (directory : Path) (extensions : List String) :
    Except IoError (List Path) := do
  let names := (← files.list directory).mergeSort fun first second => !decide (second < first)
  return (names.map directory.join).filter fun path =>
    files.isFile path && path.hasExtension extensions

/-- Names that are listed in order need no sorting. -/
theorem filesIn_of_pairwise {files : FileSystem} {directory : Path} {names : List String}
    (hlist : files.list directory = .ok names)
    (h : names.Pairwise fun first second => (!decide (second < first)) = true)
    (extensions : List String) :
    files.filesIn directory extensions = .ok ((names.map directory.join).filter fun path =>
      files.isFile path && path.hasExtension extensions) := by
  rw [filesIn, hlist]
  exact congrArg (fun sorted : List String => Except.ok ((sorted.map directory.join).filter _))
    (List.mergeSort_of_pairwise h)

/-! ### Changing -/

/-- The file system with a node put at a location, in the place of the one that stood there or behind all
others. -/
def setNode (files : FileSystem) (location : Location) (node : Node) : FileSystem :=
  if (files.nodes.lookup location).isSome then
    { files with nodes := files.nodes.map fun entry =>
        if entry.1 = location then (location, node) else entry }
  else { files with nodes := files.nodes ++ [(location, node)] }

/-- Putting a node somewhere leaves the working directory as it is. -/
@[simp] theorem workingDirectory_setNode (files : FileSystem) (location : Location) (node : Node) :
    (files.setNode location node).workingDirectory = files.workingDirectory := by
  unfold setNode
  split <;> rfl

/-- The node put at a location stands there. -/
theorem node?_setNode_self (files : FileSystem) {location : Location} (node : Node)
    (h : location ≠ []) : (files.setNode location node).node? location = some node := by
  have replaced (nodes : List (Location × Node)) (hs : (nodes.lookup location).isSome) :
      (nodes.map fun entry => if entry.1 = location then (location, node) else entry).lookup
        location = some node := by
    induction nodes with
    | nil => simp at hs
    | cons entry nodes ih =>
      obtain ⟨place, kept⟩ := entry
      by_cases he : place = location
      · simp [he]
      · simp only [List.lookup_cons, beq_false_of_ne (Ne.symm he)] at hs
        simpa [he, List.lookup_cons, beq_false_of_ne (Ne.symm he)] using ih hs
  have appended (nodes : List (Location × Node)) (hn : nodes.lookup location = none) :
      (nodes ++ [(location, node)]).lookup location = some node := by
    simp [List.lookup_append, hn]
  rw [node?, if_neg h, setNode]
  split
  · next hs => exact replaced files.nodes hs
  · next hn => exact appended files.nodes (Option.not_isSome_iff_eq_none.1 hn)

/-- A node put at a location leaves all other locations as they were. -/
theorem node?_setNode_of_ne (files : FileSystem) {location other : Location} (node : Node)
    (h : other ≠ location) : (files.setNode location node).node? other = files.node? other := by
  have replaced (nodes : List (Location × Node)) :
      (nodes.map fun entry => if entry.1 = location then (location, node) else entry).lookup other =
        nodes.lookup other := by
    induction nodes with
    | nil => rfl
    | cons entry nodes ih =>
      obtain ⟨place, kept⟩ := entry
      by_cases he : place = location
      · simp [he, List.lookup_cons, beq_false_of_ne h, ih]
      · simp [he, List.lookup_cons, ih]
  have appended : (files.nodes ++ [(location, node)]).lookup other = files.nodes.lookup other := by
    simp [List.lookup_append, List.lookup_cons, beq_false_of_ne h]
  rw [node?, node?, setNode]
  split
  · rfl
  · split
    · exact replaced files.nodes
    · exact appended

/-- The parts of a path without slashes at the end. -/
def partsWithoutSlash (path : Path) : List String :=
  (path.parts.reverse.dropWhile (· = "")).reverse

/-- The directory in which the last part of a path stands, and this part; none for the root directory. -/
def lastStep? (files : FileSystem) (path : Path) : Except IoError (Option (Location × String)) := do
  checkPath path
  match (partsWithoutSlash path).reverse with
  | [] => return none
  | name :: before =>
    let directory ← files.walk (files.start path) before.reverse
    files.requireDirectory directory
    return some (directory, name)

/-- Makes a directory. -/
def createDirectory (files : FileSystem) (path : Path) : Except IoError FileSystem := do
  match ← files.lastStep? path with
  | none => throw .alreadyExists
  | some (directory, name) =>
    if name = "." ∨ name = ".." then throw .alreadyExists
    else if name.utf8ByteSize > maxNameBytes then throw .nameTooLong
    else if (files.node? (directory ++ [name])).isSome then throw .alreadyExists
    else return files.setNode (directory ++ [name]) .directory

/-- Makes the first of the paths a directory, where each path is the parent of the one before it, after those
that are missing. What was made stays when a later step fails. -/
def createChain (files : FileSystem) : List Path → Except IoError Unit × FileSystem
  | [] => (.error .notFound, files)
  | path :: above =>
    if path.text.isEmpty then (.ok (), files)
    else
      match files.createDirectory path with
      | .ok files => (.ok (), files)
      | .error .notFound =>
        match createChain files above with
        | (.error error, files) => (.error error, files)
        | (.ok (), files) =>
          match files.createDirectory path with
          | .ok files => (.ok (), files)
          | .error error => (if files.isDirectory path then .ok () else .error error, files)
      | .error error => (if files.isDirectory path then .ok () else .error error, files)

/-- Makes a directory and the missing ones above it. -/
def createDirectories (files : FileSystem) (path : Path) : Except IoError Unit × FileSystem :=
  files.createChain path.ancestors

/-- Writes a file, a new one or in the place of the old contents. -/
def write (files : FileSystem) (path : Path) (content : ByteArray) : Except IoError FileSystem := do
  match ← files.lastStep? path with
  | none => throw .isADirectory
  | some (directory, name) =>
    if name = "." ∨ name = ".." ∨ path.parts ≠ partsWithoutSlash path then throw .isADirectory
    else if name.utf8ByteSize > maxNameBytes then throw .nameTooLong
    else
      let location := directory ++ [name]
      match files.node? location with
      | some .directory => throw .isADirectory
      | some (.file _ isExecutable) => return files.setNode location (.file content isExecutable)
      | none => return files.setNode location (.file content false)

/-- Lets a file be executed. -/
def makeExecutable (files : FileSystem) (path : Path) : FileSystem :=
  match files.resolve path with
  | .error _ => files
  | .ok location =>
    match files.node? location with
    | some (.file content _) => files.setNode location (.file content true)
    | _ => files

/-- Removes a file, or a directory with everything below it. -/
def remove (files : FileSystem) (path : Path) : Except IoError FileSystem := do
  let location ← files.resolve path
  return { files with nodes := files.nodes.filter fun entry => !location.isPrefixOf entry.1 }

/-- The file system that holds nothing but the working directory and the directories above it. -/
def bare (workingDirectory : Location) : FileSystem where
  nodes := (List.range workingDirectory.length).map fun count =>
    (workingDirectory.take (count + 1), .directory)
  workingDirectory := workingDirectory

end FileSystem

end NativeHeaders
