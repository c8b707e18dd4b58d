import NativeHeaders.CommandLine.Run

/-! # What a run looks at

The locations below which a run of the command may read or write, so that they can be fetched before it starts.
Locations are found from the spelling of paths alone. -/

namespace NativeHeaders

/-- The location that a path leads to if all its parts are directories. -/
def Path.spelledLocation (workingDirectory : Location) (path : Path) : Location :=
  path.parts.foldl (fun location part =>
    if Path.isIdle part then location
    else if part = ".." then location.dropLast
    else location ++ [part])
    (if path.isAbsolute then [] else workingDirectory)

namespace Installation

/-- The places where the installation in a directory may keep its classes. -/
def classPlaces (home : Path) : List Path :=
  home.join Root.modulesPath :: Root.archivePaths.map home.join

/-- The places to which the environment may lead: a command, and the classes of the installations. -/
def environmentPlaces (environment : Environment) : List Path :=
  let named := homeVariables.filterMap fun name => (environment.lookup name).map Path.mk
  let directories := ((environment.lookup commandVariable).map (Text.pieces ':')).getD []
  let commands := directories.map fun directory => (Path.mk directory).join commandName
  let homes := named ++ directories.filterMap fun directory => (Path.mk directory).parent?
  commands ++ homes.flatMap classPlaces

end Installation

namespace CommandLine

/-- The paths at which settings let a run look. -/
def settingsPlaces (settings : Settings) (environment : Environment) : List Path :=
  let classes := (Expansion.entries settings.classPath).map fun entry =>
    (Expansion.wildcardDirectory? entry).getD ⟨entry⟩
  let installations :=
    if settings.usesInstallation then
      (settings.javaHome.map Installation.classPlaces).getD
        (Installation.environmentPlaces environment)
    else []
  let outputs := match settings.target with
    | .error _ => []
    | .ok (.singleFile path) | .ok (.perClass path) => [path]
  classes ++ Expansion.modulePath settings.modulePath ++ installations ++ outputs

/-- The locations without those below others of them, each once. -/
def outermost (locations : List Location) : List Location :=
  let distinct := locations.eraseDups
  distinct.filter fun location =>
    !distinct.any fun other => other ≠ location && other.isPrefixOf location

/-- The locations of the working directory and of what is above it or above the given locations, each once and
outer ones first, without those that are given or below a given one. -/
def enclosing (workingDirectory : Location) (locations : List Location) : List Location :=
  let around (location : Location) : List Location :=
    (List.range' 1 location.length).map fun count => location.take count
  ((workingDirectory :: locations).flatMap around).eraseDups.filter fun location =>
    !locations.any (·.isPrefixOf location)

/-- The locations at which a run looks, where `files` has the file with settings. -/
def Arguments.footprint (arguments : Arguments) (files : FileSystem) (environment : Environment) :
    List Location :=
  let places := match arguments.settingsIn files with
    | .error _ => []
    | .ok settings => settingsPlaces settings environment
  let named := arguments.settings.toList ++ arguments.classes
  outermost ((named.map Path.mk ++ places).map (Path.spelledLocation files.workingDirectory))

end CommandLine

end NativeHeaders
