import NativeHeaders.CommandLine.Footprint

/-! # The command

The command fetches the files at which a run looks, runs on them, and stores what the run wrote. All decisions are
made by `CommandLine.Arguments.run` and the definitions it is made of. -/

namespace NativeHeaders.CommandLine

/-- The variables of the environment that matter. -/
def usedVariables : List String :=
  settingsVariable :: Installation.commandVariable :: Installation.homeVariables

/-- The directory in which the file of the first command really stands, behind all links. -/
def commandDirectory (directories : String) : IO (Option String) := do
  for directory in Text.pieces ':' directories do
    let path := ((Path.mk directory).join Installation.commandName).text
    try
      let real ← IO.FS.realPath path
      unless ← real.isDir do return (Path.mk real.toString).parent?.map Path.text
    catch _ => continue
  return none

/-- The environment. Of the directories of commands, the one with the command that matters is kept. -/
def readEnvironment : IO Environment := do
  let mut environment : Environment := []
  for name in usedVariables do
    match ← IO.getEnv name with
    | none => continue
    | some value =>
      if name = Installation.commandVariable then
        match ← commandDirectory value with
        | none => continue
        | some directory => environment := environment ++ [(name, directory)]
      else environment := environment ++ [(name, value)]
  return environment

/-- The node at a location, without what is below it. The system does not tell which files may be executed, so
every file may. -/
def fetchNode (location : Location) : IO (Option Node) := do
  let path ← try IO.FS.realPath (FileSystem.absolutePath location).text catch _ => return none
  if ← path.isDir then return some .directory
  try return some (.file (← IO.FS.readBinFile path) true) catch _ => return none

/-- The nodes at a location and below it, behind the nodes already found. Links to directories are followed only
at the location itself. -/
partial def fetchTree (nodes : Array (Location × Node)) (location : Location) :
    IO (Array (Location × Node)) := do
  match ← fetchNode location with
  | none => return nodes
  | some (.file content isExecutable) => return nodes.push (location, .file content isExecutable)
  | some .directory =>
    let path ← IO.FS.realPath (FileSystem.absolutePath location).text
    let mut nodes := if location.isEmpty then nodes else nodes.push (location, .directory)
    for entry in ← path.readDir do
      if (← entry.path.isDir) && (← IO.FS.realPath entry.path) ≠ path / entry.fileName then continue
      nodes ← fetchTree nodes (location ++ [entry.fileName])
    return nodes

/-- The files at locations and below them, and the directories above them. -/
def fetch (workingDirectory : Location) (locations : List Location) : IO FileSystem := do
  let mut nodes : Array (Location × Node) := #[]
  for location in enclosing workingDirectory locations do
    if let some node ← fetchNode location then nodes := nodes.push (location, node)
  for location in locations do
    nodes ← fetchTree nodes location
  return { nodes := nodes.toList, workingDirectory }

/-- The paths of the files that a run wrote. One that was interrupted does not list them. -/
def writtenPaths (before after : FileSystem) : Except RunError Generator.Report → List Path
  | .ok report => report.written
  | .error .interrupted =>
    (after.nodes.filter fun (location, node) => before.node? location ≠ some node).map fun (location, _) =>
      FileSystem.absolutePath location
  | .error _ => []

/-- Stores the directories that a run made and the files that it wrote. -/
def store (before after : FileSystem) (written : List Path) : IO Unit := do
  for (location, node) in after.nodes.drop before.nodes.length do
    if node matches .directory then
      IO.FS.createDirAll (FileSystem.absolutePath location).text
  for path in written do
    if let .ok content := after.read path then IO.FS.writeBinFile path.text content

/-- Runs the command, and gives its exit status. -/
def execute (words : List String) : IO UInt8 := do
  let environment ← readEnvironment
  match Arguments.parse environment words with
  | .error error =>
    if error.isAsked then IO.print error.message else IO.eprint error.message
    return error.exitStatus
  | .ok arguments =>
    let workingDirectory := ((Path.mk (← IO.currentDir).toString).spelledLocation [])
    let settingsPlaces := arguments.settings.toList.map fun path =>
      (Path.mk path).spelledLocation workingDirectory
    let settingsFiles ← fetch workingDirectory settingsPlaces
    let before ← fetch workingDirectory (arguments.footprint settingsFiles environment)
    let (result, after) := arguments.run before environment
    store before after (writtenPaths before after result)
    for message in reportedErrors result do IO.eprintln ("error: " ++ message)
    if let .error .interrupted := result then IO.eprintln RunError.interrupted.message
    return exitStatus result

end NativeHeaders.CommandLine

/-- The entry point. -/
def main (words : List String) : IO UInt32 := do
  return (← NativeHeaders.CommandLine.execute words).toUInt32
