import NativeHeaders.FileSystem

/-! # Finding a Java installation

If no installation is named, variables of the environment and then the place of the `java` command lead to
one. -/

namespace NativeHeaders

/-- Variables with their values. -/
abbrev Environment := List (String × String)

namespace Installation

/-- The variables that may name an installation, the first choice first. -/
def homeVariables : List String := ["JAVA_HOME", "JDK_HOME"]

/-- The variable with the directories of commands. -/
def commandVariable : String := "PATH"

/-- The command that an installation has in a directory of its own. -/
def commandName : String := "java"

/-- The installation that a variable names. -/
def namedHome? (files : FileSystem) (environment : Environment) : Option Path :=
  (homeVariables.filterMap fun name => (environment.lookup name).map Path.mk).find? files.exists?

/-- The path of the command, in the first directory of commands that has it. -/
def command? (files : FileSystem) (environment : Environment) : Option Path := do
  let directories ← environment.lookup commandVariable
  ((Text.pieces ':' directories).map fun directory => (Path.mk directory).join commandName).find?
    files.isExecutable

/-- The directory above the one in which the command stands. -/
def commandHome? (files : FileSystem) (environment : Environment) : Option Path := do
  let path ← command? files environment
  let location ← (files.resolve path).toOption
  if location.length < 2 then none else return FileSystem.absolutePath location.dropLast.dropLast

/-- The installation to which the environment leads. -/
def home? (files : FileSystem) (environment : Environment) : Option Path :=
  (namedHome? files environment).or (commandHome? files environment)

end Installation

end NativeHeaders
