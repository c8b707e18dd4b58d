import NativeHeaders.SearchPath.Installation

/-! # Command lines

A command line consists of options with a value, flags, and the classes to generate headers for. An option may
have its value in the same word or in the next one. The value of an option in a word of its own counts only when
the next option, flag or class is reached, or the end, and this is also when a missing value is noticed; a word
that is no option at all is an error before that. -/

namespace NativeHeaders.CommandLine

/-! ### What there is to choose -/

/-- The options, each of which has a value. -/
inductive OptionName where
  /-- The file for all headers. -/
  | output
  /-- The directory for the headers of single classes. -/
  | directory
  /-- Where classes are looked for. -/
  | classPath
  /-- Where modules are looked for. -/
  | modulePath
  /-- The Java installation. -/
  | javaHome
  /-- The file with settings. -/
  | settings
deriving DecidableEq, Repr

/-- The flags, none of which has a value. -/
inductive FlagName where
  /-- No class is looked for in a Java installation. -/
  | noInstallation
  /-- More is told about what is done. -/
  | verbose
  /-- The help is asked for. -/
  | help
  /-- The version is asked for. -/
  | version
deriving DecidableEq, Repr

/-- What a word that starts with a dash may stand for. -/
inductive Switch where
  /-- An option. -/
  | option (name : OptionName)
  /-- A flag. -/
  | flag (name : FlagName)
deriving DecidableEq, Repr

/-- The names behind two dashes. -/
def longNames : List (String × Switch) :=
  [("output", .option .output), ("directory", .option .directory),
    ("class-path", .option .classPath), ("classpath", .option .classPath), ("cp", .option .classPath),
    ("module-path", .option .modulePath), ("java-home", .option .javaHome),
    ("config", .option .settings), ("no-runtime", .flag .noInstallation), ("verbose", .flag .verbose),
    ("help", .flag .help), ("version", .flag .version)]

/-- The letters behind one dash. -/
def shortNames : List (Char × Switch) :=
  [('o', .option .output), ('d', .option .directory), ('p', .option .modulePath),
    ('v', .flag .verbose), ('h', .flag .help), ('V', .flag .version)]

/-- The variable that may name the file with settings. -/
def settingsVariable : String := "JNIH_CONFIG"

/-- What a command line chooses. -/
structure Arguments where
  /-- The classes, or class files, to generate headers for. -/
  classes : List String := []
  /-- The file for all headers. -/
  output : Option String := none
  /-- The directory for the headers of single classes. -/
  directory : Option String := none
  /-- The class paths. -/
  classPath : List String := []
  /-- The module paths. -/
  modulePath : List String := []
  /-- Whether no class is looked for in a Java installation. -/
  noInstallation : Bool := false
  /-- The Java installation. -/
  javaHome : Option String := none
  /-- The file with settings. -/
  settings : Option String := none
  /-- How much more is to be told, at most `maxVerbosity`. -/
  verbosity : Nat := 0
deriving DecidableEq, Repr

/-- Why a command line ends before anything is done. -/
inductive UsageError where
  /-- No class is given. -/
  | missingClasses
  /-- A word that starts with a dash is no option and no flag. -/
  | unknownArgument
  /-- An option has no value, or an empty one where this is not allowed. -/
  | invalidValue
  /-- An option or flag that may be given once is given again. -/
  | repeated
  /-- A flag has a value. -/
  | unneededValue
  /-- The help is asked for. -/
  | helpAsked
  /-- The version is asked for. -/
  | versionAsked
deriving DecidableEq, Repr

namespace Arguments

/-- The greatest verbosity. -/
def maxVerbosity : Nat := 255

/-- The value for a choice that may be made once and must not be empty. -/
def once (current : Option String) (value : String) : Except UsageError (Option String) :=
  if current.isSome then .error .repeated
  else if value.isEmpty then .error .invalidValue
  else .ok (some value)

/-- The arguments with the value of an option. -/
def withValue (arguments : Arguments) (name : OptionName) (value : String) :
    Except UsageError Arguments := do
  match name with
  | .output => return { arguments with output := ← once arguments.output value }
  | .directory => return { arguments with directory := ← once arguments.directory value }
  | .javaHome => return { arguments with javaHome := ← once arguments.javaHome value }
  | .settings => return { arguments with settings := ← once arguments.settings value }
  | .classPath => return { arguments with classPath := arguments.classPath ++ [value] }
  | .modulePath => return { arguments with modulePath := arguments.modulePath ++ [value] }

/-- The arguments with a flag. -/
def withFlag (arguments : Arguments) : FlagName → Except UsageError Arguments
  | .noInstallation =>
    if arguments.noInstallation then .error .repeated else .ok { arguments with noInstallation := true }
  | .verbose => .ok { arguments with verbosity := min maxVerbosity (arguments.verbosity + 1) }
  | .help => .error .helpAsked
  | .version => .error .versionAsked

end Arguments

/-! ### Reading words -/

/-- What was read of a command line. -/
structure Reading where
  /-- The choices made so far. -/
  arguments : Arguments := {}
  /-- The last option, if its value was not in the same word, with its value if there was one. -/
  pending : Option (OptionName × Option String) := none

namespace Reading

/-- The reading in which the pending option counts. -/
def settle (reading : Reading) : Except UsageError Reading :=
  match reading.pending with
  | none => .ok reading
  | some (_, none) => .error .invalidValue
  | some (name, some value) => (reading.arguments.withValue name value).map fun arguments => { arguments }

/-- The reading with a flag. -/
def flag (reading : Reading) (name : FlagName) : Except UsageError Reading := do
  let settled ← reading.settle
  return { arguments := ← settled.arguments.withFlag name }

/-- The reading with an option whose value is in the same word. -/
def option (reading : Reading) (name : OptionName) (value : String) : Except UsageError Reading := do
  let settled ← reading.settle
  return { arguments := ← settled.arguments.withValue name value }

/-- The reading with an option whose value has to follow. -/
def await (reading : Reading) (name : OptionName) : Except UsageError Reading := do
  return { ← reading.settle with pending := some (name, none) }

/-- The reading with a word that is no option. -/
def plain (reading : Reading) (word : String) : Except UsageError Reading := do
  let settled ← reading.settle
  let arguments := settled.arguments
  return { arguments := { arguments with classes := arguments.classes ++ [word] } }

/-- The reading with a word that starts with two dashes, given without these. -/
def long (reading : Reading) (word : String) : Except UsageError Reading :=
  let (name, value) := match Text.cutText '=' word with
    | none => (word, none)
    | some (name, value) => (name, some value)
  match longNames.lookup name, value with
  | none, _ => .error .unknownArgument
  | some (.flag name), none => reading.flag name
  | some (.flag _), some _ => .error .unneededValue
  | some (.option name), some value => reading.option name value
  | some (.option name), none => reading.await name

/-- The reading with letters behind one dash. The first letter that is an option has the rest of the word as its
value, where an equals sign may stand in between. -/
def short (reading : Reading) : List Char → Except UsageError Reading
  | [] => .ok reading
  | letter :: rest =>
    match shortNames.lookup letter with
    | none => .error .unknownArgument
    | some (.flag name) => do short (← reading.flag name) rest
    | some (.option name) =>
      match rest with
      | [] => reading.await name
      | '=' :: value => reading.option name (String.ofList value)
      | value => reading.option name (String.ofList value)

/-- The reading with one more word. A single dash is a plain word. -/
def word (reading : Reading) (text : String) : Except UsageError Reading :=
  match text.toList, reading.pending with
  | '-' :: '-' :: rest, _ => reading.long (String.ofList rest)
  | '-' :: letter :: rest, _ => reading.short (letter :: rest)
  | _, some (name, none) => .ok { reading with pending := some (name, some text) }
  | _, _ => reading.plain text

/-- The word behind which all words are plain. -/
def endOfOptions : String := "--"

/-- The reading with all words of a command line. -/
def words (reading : Reading) : List String → Except UsageError Reading
  | [] => reading.settle
  | text :: rest =>
    if text = endOfOptions then do (← rest.foldlM plain reading).settle
    else do words (← reading.word text) rest

end Reading

/-! ### Whole command lines -/

/-- Other spellings of words, from the time when options had one dash. -/
def otherSpellings : List (String × String) :=
  [("-cp", "--class-path"), ("-classpath", "--class-path"), ("-version", "--version"),
    ("-help", "--help"), ("-?", "--help")]

/-- The words with their usual spellings. Behind the word that ends the options none is changed. -/
def normalized : List String → List String
  | [] => []
  | word :: rest =>
    if word = Reading.endOfOptions then word :: rest
    else (otherSpellings.lookup word).getD word :: normalized rest

/-- The arguments with the file with settings that the environment names, if none was chosen. -/
def Arguments.withEnvironment (arguments : Arguments) (environment : Environment) :
    Except UsageError Arguments :=
  match arguments.settings, environment.lookup settingsVariable with
  | none, some value => arguments.withValue .settings value
  | _, _ => .ok arguments

/-- The arguments that words and the environment give. -/
def Arguments.parse (environment : Environment) (words : List String) : Except UsageError Arguments := do
  let reading ← Reading.words {} (normalized words)
  let arguments ← reading.arguments.withEnvironment environment
  if arguments.classes.isEmpty then throw .missingClasses else return arguments

end NativeHeaders.CommandLine
