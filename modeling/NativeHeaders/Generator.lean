import NativeHeaders.ClassFile
import NativeHeaders.Generator.Output
import NativeHeaders.Generator.Request
import NativeHeaders.Header
import NativeHeaders.SearchPath
import NativeHeaders.SummaryCache

/-! # Generating headers

A generator loads classes from a search path, or straight from files, and keeps their summaries. `render` gives
the text of one header for several classes, and `generate` writes headers and reports what became of each class.
A class that cannot be loaded does not keep the others from being written. -/

namespace NativeHeaders

/-- A search path with the summaries of the classes loaded so far. -/
structure Generator where
  /-- Where classes are looked for. -/
  searchPath : SearchPath
  /-- The summaries loaded so far. -/
  cache : SummaryCache := .empty

/-! ### Loading -/

/-- The summary of a class as its class file has it now. -/
def SearchPath.load (path : SearchPath) (files : FileSystem) (name : ClassName) :
    Except GenerationError ClassSummary :=
  match path.resolve files name with
  | .error cause => .error (.search cause)
  | .ok none => .error (.classNotFound name.display path.descriptions)
  | .ok (some source) =>
    (ClassFile.read source.bytes.data.toList).mapError (.malformed name.display source.origin)

/-- The summary of the class in a file. -/
def FileSystem.loadClassFile (files : FileSystem) (path : Path) :
    Except GenerationError ClassSummary := do
  let bytes ← (files.read path).mapError (.file path)
  (ClassFile.read bytes.data.toList).mapError (.malformed path.text path)

namespace Generator

/-- The generator without any summaries. -/
def ofSearchPath (searchPath : SearchPath) : Generator := { searchPath }

/-- The summary of a class, kept under its internal name. -/
def load (generator : Generator) (files : FileSystem) (name : ClassName) :
    Except GenerationError ClassSummary × Generator :=
  let (result, cache) := generator.cache.getOrLoad name.internal fun _ =>
    generator.searchPath.load files name
  (result, { generator with cache })

/-- The summary of the class in a file, kept under the name that the file gives; a summary already kept under
this name takes its place. -/
def loadFile (generator : Generator) (files : FileSystem) (path : Path) :
    Except GenerationError ClassSummary × Generator :=
  match files.loadClassFile path with
  | .error error => (.error error, generator)
  | .ok summary =>
    let (summary, cache) := generator.cache.insert summary.name summary
    (.ok summary, { generator with cache })

/-- The summary of the class for which a request asks. -/
def loadRequest (generator : Generator) (files : FileSystem) :
    ClassRequest → Except GenerationError ClassSummary × Generator
  | .named name => generator.load files name
  | .file path => generator.loadFile files path

/-! ### Superclasses -/

/-- The superclass of a class, none if the class cannot be loaded or has none. -/
def superclassOf (generator : Generator) (files : FileSystem) (className : String) :
    Option String × Generator :=
  match ClassName.ofInternal className with
  | .error _ => (none, generator)
  | .ok name =>
    match generator.load files name with
    | (.ok summary, generator) => (summary.superName, generator)
    | (.error _, generator) => (none, generator)

/-- The hierarchy of the classes that the generator can load. A class with a superclass is one whose summary is
kept, or one that a root holds. -/
def hierarchy (generator : Generator) (files : FileSystem) : Hierarchy Generator where
  canResolve := !generator.searchPath.isEmpty
  superclassOf className state := state.superclassOf files className
  bound := generator.cache.size + generator.searchPath.capacity files

/-- Whether a class is throwable. -/
def isThrowable (generator : Generator) (files : FileSystem) (className : String) :
    Bool × Generator :=
  (generator.hierarchy files).isThrowable className generator

/-! ### One text -/

/-- The summaries of the classes for which requests ask, up to the first one that cannot be loaded. -/
def loadUntilFailure (generator : Generator) (files : FileSystem) :
    List ClassRequest → Except GenerationError (List ClassSummary) × Generator
  | [] => (.ok [], generator)
  | request :: requests =>
    match generator.loadRequest files request with
    | (.error error, generator) => (.error error, generator)
    | (.ok summary, generator) =>
      let (rest, generator) := loadUntilFailure generator files requests
      (rest.map (summary :: ·), generator)

/-- The text of one header for the requested classes, if they declare anything. -/
def render (generator : Generator) (files : FileSystem) (requests : List ClassRequest) :
    Except GenerationError (Option String) × Generator :=
  match generator.loadUntilFailure files requests with
  | (.error error, generator) => (.error error, generator)
  | (.ok summaries, generator) =>
    let (text, generator) := Header.renderMany (generator.hierarchy files) summaries generator
    (.ok text, generator)

/-! ### Files -/

/-- A class without header, and why. -/
structure Failure where
  /-- The class, as it was asked for or as its class file names it. -/
  className : String
  /-- What went wrong. -/
  error : GenerationError
deriving DecidableEq, Repr

/-- What became of the requested classes. -/
structure Report where
  /-- The files that were written. -/
  written : List Path := []
  /-- The files that had the right text. -/
  unchanged : List Path := []
  /-- The classes that declare nothing. -/
  skipped : List String := []
  /-- The classes that failed. -/
  failures : List Failure := []
deriving DecidableEq, Repr

/-- Whether no class failed. -/
def Report.isSuccess (report : Report) : Bool := report.failures.isEmpty

/-- The report with one more output file. -/
def Report.record (report : Report) (path : Path) : WriteOutcome → Report
  | .written => { report with written := report.written ++ [path] }
  | .unchanged => { report with unchanged := report.unchanged ++ [path] }

/-- The report with one more failure. -/
def Report.fail (report : Report) (className : String) (error : GenerationError) : Report :=
  { report with failures := report.failures ++ [{ className, error }] }

/-- The report with what became of the header for a class: one more output file, or one more failure. -/
def Report.recordHeader (report : Report) (path : Path) (className : String) :
    Except GenerationError WriteOutcome → Report
  | .ok outcome => report.record path outcome
  | .error error => report.fail className error

/-- The summaries of the classes that can be loaded, and the failures of the others. -/
def loadAll (generator : Generator) (files : FileSystem) :
    List ClassRequest → List ClassSummary × List Failure × Generator
  | [] => ([], [], generator)
  | request :: requests =>
    match generator.loadRequest files request with
    | (.error error, generator) =>
      let (summaries, failures, generator) := loadAll generator files requests
      (summaries, { className := request.display, error } :: failures, generator)
    | (.ok summary, generator) =>
      let (summaries, failures, generator) := loadAll generator files requests
      (summary :: summaries, failures, generator)

/-- What a generation leaves behind. -/
structure Aftermath (α : Type) where
  /-- What it gives. -/
  result : α
  /-- The generator with the summaries loaded. -/
  generator : Generator
  /-- The files. -/
  files : FileSystem

/-- Writes one header for all classes. -/
def writeSingle (generator : Generator) (files : FileSystem) (path : Path)
    (summaries : List ClassSummary) (report : Report) : Aftermath (Except GenerationError Report) :=
  let (text, generator) := Header.renderMany (generator.hierarchy files) summaries generator
  match text with
  | none => { result := .ok report, generator, files }
  | some text =>
    let (outcome, files) := files.writeIfChanged path text
    { result := outcome.map (report.record path), generator, files }

/-- The path of the header for one class. -/
def headerPath (directory : Path) (summary : ClassSummary) : Path :=
  directory.join (Header.fileName summary.name)

/-- Writes a header for each class. -/
def writeEach (generator : Generator) (files : FileSystem) (directory : Path) :
    List ClassSummary → Report → Aftermath Report
  | [], report => { result := report, generator, files }
  | summary :: summaries, report =>
    match Header.renderOne (generator.hierarchy files) summary generator with
    | (none, generator) => writeEach generator files directory summaries report
    | (some text, generator) =>
      let path := headerPath directory summary
      let written := files.writeIfChanged path text
      let report := report.recordHeader path (Text.substituted '/' '.' summary.name) written.1
      writeEach generator written.2 directory summaries report

/-- Writes headers for the requested classes. A failure to write the one header for all classes is an error;
every other failure is part of the report. -/
def generate (generator : Generator) (files : FileSystem) (requests : List ClassRequest)
    (target : OutputTarget) : Aftermath (Except GenerationError Report) :=
  let (summaries, failures, generator) := generator.loadAll files requests
  let skipped := (summaries.filter ClassSummary.isEmpty).map ClassSummary.name
  let report : Report := { skipped, failures }
  match target with
  | .singleFile path => generator.writeSingle files path summaries report
  | .perClass directory =>
    let aftermath := generator.writeEach files directory summaries report
    { aftermath with result := .ok aftermath.result }

end Generator

end NativeHeaders
