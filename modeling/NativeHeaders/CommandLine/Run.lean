import NativeHeaders.CommandLine.Arguments
import NativeHeaders.Generator.Searches
import NativeHeaders.Settings

/-! # Runs of the command

A run makes settings out of the arguments, opens the search path, and generates headers. Until the headers are
generated nothing is written. The exit status says whether all went well. A generation that is interrupted ends
with a status of its own, and no error is reported. -/

namespace NativeHeaders.CommandLine

/-- Why a run ends without a report. -/
inductive RunError where
  /-- The file with settings cannot be used. -/
  | settings (path : String) (cause : SettingsError)
  /-- The settings have no target. -/
  | target (cause : SettingsError)
  /-- A text does not name a class. -/
  | className (input : String) (cause : NameError)
  /-- A root of the search path cannot be opened. -/
  | searchPath (cause : ResolveError)
  /-- The header for all classes cannot be written. -/
  | generation (cause : GenerationError)
  /-- No buffer can have the declared size of a class file. -/
  | interrupted
deriving DecidableEq, Repr

/-- The messages of the error and of the errors that caused it, the outermost first. -/
def RunError.chain : RunError → List String
  | .settings path cause => s!"failed to load configuration {path}" :: cause.chain
  | .target cause => cause.chain
  | .className input cause => [s!"invalid class name '{input}'", cause.message]
  | .searchPath cause => ["failed to open search roots", cause.message, cause.cause]
  | .generation cause => cause.chain
  | .interrupted => ["capacity overflow"]

/-- The sentence that reports the error. -/
def RunError.message (error : RunError) : String := ": ".intercalate error.chain

/-! ### Settings -/

/-- The class path if none is chosen. -/
def defaultClassPath : List String := ["."]

/-- The settings changed by arguments. A chosen file or directory takes the place of both of them. -/
def Arguments.override (arguments : Arguments) (settings : Settings) : Settings :=
  let classPath := if arguments.classPath.isEmpty then settings.classPath else arguments.classPath
  let isRedirected := arguments.output.isSome || arguments.directory.isSome
  { classPath := if classPath.isEmpty then defaultClassPath else classPath
    modulePath := if arguments.modulePath.isEmpty then settings.modulePath else arguments.modulePath
    usesInstallation := settings.usesInstallation && !arguments.noInstallation
    javaHome := (arguments.javaHome.map Path.mk).or settings.javaHome
    outputFile := if isRedirected then arguments.output.map Path.mk else settings.outputFile
    outputDirectory :=
      if isRedirected then arguments.directory.map Path.mk else settings.outputDirectory }

/-- The settings that arguments lead to. -/
def Arguments.settingsIn (arguments : Arguments) (files : FileSystem) : Except RunError Settings := do
  match arguments.settings with
  | none => return arguments.override {}
  | some path =>
    let settings ← (Settings.load files ⟨path⟩).mapError (.settings path)
    return arguments.override settings

/-- The requests that arguments hold. -/
def Arguments.requests (arguments : Arguments) (files : FileSystem) :
    Except RunError (List ClassRequest) :=
  arguments.classes.mapM fun input => (ClassRequest.parse files input).mapError (.className input)

/-! ### Runs -/

/-- What a generation needs. -/
structure Plan where
  /-- The generator. -/
  generator : Generator
  /-- The requested classes. -/
  requests : List ClassRequest
  /-- Where headers go. -/
  target : OutputTarget

/-- The plan that arguments lead to. -/
def Arguments.plan (arguments : Arguments) (files : FileSystem) (environment : Environment) :
    Except RunError Plan := do
  let settings ← arguments.settingsIn files
  let target ← settings.target.mapError .target
  let requests ← arguments.requests files
  let generator ← (Generator.ofSettings files environment settings).mapError .searchPath
  return { generator, requests, target }

/-- Generates headers as arguments say, and gives the files as they are afterwards. -/
def Arguments.run (arguments : Arguments) (files : FileSystem) (environment : Environment) :
    Except RunError Generator.Report × FileSystem :=
  match arguments.plan files environment with
  | .error error => (.error error, files)
  | .ok plan =>
    match plan.generator.interruption? files plan.requests plan.target with
    | some files => (.error .interrupted, files)
    | none =>
      let aftermath := plan.generator.generate files plan.requests plan.target
      (aftermath.result.mapError .generation, aftermath.files)

/-- What is wrong with the settings, if the run ends because of them. -/
def RunError.settingsError? : RunError → Option SettingsError
  | .settings _ cause | .target cause => some cause
  | .className _ _ | .searchPath _ | .generation _ | .interrupted => none

/-- The exit status of a run. -/
def exitStatus : Except RunError Generator.Report → UInt8
  | .ok report => if report.isSuccess then 0 else 1
  | .error .interrupted => 101
  | .error error => if error.settingsError? = some .ambiguousTarget then 2 else 1

/-- The errors that a run reports. -/
def reportedErrors : Except RunError Generator.Report → List String
  | .error .interrupted => []
  | .error error => [error.message]
  | .ok report => report.failures.map fun failure => failure.className ++ ": " ++ failure.error.message

/-! ### Command lines that end early -/

/-- The name of the command with its version. -/
def versionText : String := "jnih 0.3.0\n"

/-- How the command is used. -/
def usageText : String :=
  "Generate JNI C headers from compiled Java classes\n\nUsage: jnih [OPTIONS] <CLASSES>...\n\n" ++
  "Options:\n" ++
  "  -o, --output <FILE>         Write all headers into one file\n" ++
  "  -d, --directory <DIR>       Write a header for each class into a directory\n" ++
  "      --class-path <PATH>     Look for classes here [aliases: classpath, cp]\n" ++
  "  -p, --module-path <PATH>    Look for modules here\n" ++
  "      --no-runtime            Do not look for classes in a Java installation\n" ++
  "      --java-home <DIR>       The Java installation\n" ++
  "      --config <FILE>         A file with settings [env: JNIH_CONFIG]\n" ++
  "  -v, --verbose...            Tell more\n" ++
  "  -h, --help                  Print help\n" ++
  "  -V, --version               Print version\n"

/-- Whether a command line that ends early does so because it asks for it. -/
def UsageError.isAsked : UsageError → Bool
  | .helpAsked | .versionAsked => true
  | _ => false

/-- The exit status of a command line that ends early. -/
def UsageError.exitStatus (error : UsageError) : UInt8 := if error.isAsked then 0 else 2

/-- What a command line that ends early prints. -/
def UsageError.message : UsageError → String
  | .missingClasses => "error: no class is given\n\n" ++ usageText
  | .unknownArgument => "error: unexpected argument\n\n" ++ usageText
  | .invalidValue => "error: a value is missing\n\n" ++ usageText
  | .repeated => "error: an argument cannot be used multiple times\n\n" ++ usageText
  | .unneededValue => "error: unexpected value\n\n" ++ usageText
  | .helpAsked => usageText
  | .versionAsked => versionText

end NativeHeaders.CommandLine
