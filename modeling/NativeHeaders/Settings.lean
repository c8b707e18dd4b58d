import NativeHeaders.Generator
import NativeHeaders.Settings.Toml

/-! # Settings

Settings say where classes are looked for and where headers go. They can be kept in a file, in which every key is
optional and no other key is allowed. -/

namespace NativeHeaders

/-- Why settings cannot be used. -/
inductive SettingsError where
  /-- Headers are to go into one file and into a directory. -/
  | ambiguousTarget
  /-- The file cannot be read. -/
  | unreadable (path : Path) (cause : IoError)
  /-- The file does not hold settings. -/
  | malformed (path : Path)
deriving DecidableEq, Repr

namespace SettingsError

/-- The words for a fault in the notation of a file. -/
def notationFault : String := "TOML parse error"

/-- The sentence that reports the error. -/
def message : SettingsError → String
  | .ambiguousTarget => "can't mix a single output file with a per-class output directory"
  | .unreadable path cause => s!"failed to read configuration {path.text}: {cause.message}"
  | .malformed path => s!"invalid configuration {path.text}: {notationFault}"

/-- The messages of the error and of the errors that caused it, the outermost first. -/
def chain (error : SettingsError) : List String :=
  error.message :: match error with
    | .ambiguousTarget => []
    | .unreadable _ cause => [cause.message]
    | .malformed _ => [notationFault]

end SettingsError

/-- What a generation needs to know besides the requested classes. -/
structure Settings where
  /-- The class path as it is written. -/
  classPath : List String := []
  /-- The module path as it is written. -/
  modulePath : List String := []
  /-- Whether classes are also looked for in a Java installation. -/
  usesInstallation : Bool := true
  /-- The Java installation, if it is not to be found out. -/
  javaHome : Option Path := none
  /-- The file for all headers. -/
  outputFile : Option Path := none
  /-- The directory for the headers of single classes. -/
  outputDirectory : Option Path := none
deriving DecidableEq, Repr

namespace Settings

/-! ### Settings from files -/

/-- The settings changed by a pair of a table; none if there is no such setting, or not with such a value. -/
def set? (settings : Settings) (pair : String × Toml.Value) : Option Settings :=
  match pair with
  | ("classpath", .texts texts) => some { settings with classPath := texts }
  | ("module-path", .texts texts) => some { settings with modulePath := texts }
  | ("use-runtime", .flag isOn) => some { settings with usesInstallation := isOn }
  | ("java-home", .text text) => some { settings with javaHome := some ⟨text⟩ }
  | ("output-file", .text text) => some { settings with outputFile := some ⟨text⟩ }
  | ("output-dir", .text text) => some { settings with outputDirectory := some ⟨text⟩ }
  | _ => none

/-- The settings that a text holds. -/
def parse? (text : String) : Option Settings := do
  (← Toml.parse? text).foldlM set? {}

/-- The settings in a file. -/
def load (files : FileSystem) (path : Path) : Except SettingsError Settings := do
  let text ← (files.readText path).mapError (.unreadable path)
  match parse? text with
  | some settings => return settings
  | none => throw (.malformed path)

/-! ### What settings say -/

/-- Where headers go. -/
def target (settings : Settings) : Except SettingsError OutputTarget :=
  match OutputTarget.ofOptions? settings.outputFile settings.outputDirectory with
  | some target => .ok target
  | none => .error .ambiguousTarget

/-- The entries of the search path, in order. -/
def searchEntries (settings : Settings) (files : FileSystem) : List SearchPath.Entry :=
  (Expansion.classPath files settings.classPath).map .classes ++
    (Expansion.modulePath settings.modulePath).map .modules ++
    if settings.usesInstallation then [.installation settings.javaHome] else []

end Settings

/-- The generator with the search path that settings describe. -/
def Generator.ofSettings (files : FileSystem) (environment : Environment) (settings : Settings) :
    Except ResolveError Generator :=
  (SearchPath.ofEntries files environment (settings.searchEntries files)).map .ofSearchPath

end NativeHeaders
