import NativeHeaders.Generator

/-! # The searches of a generation

A generation looks for classes: first for the requested ones, and then, while headers are rendered, for the
superclasses of the classes in the types of methods. `searches` lists all searches in order, each with the files as
they are then, which change as headers are written. A search that comes to a file of a size that no buffer can have
ends the generation at once, and the files stay as they are then (`interruption?`). -/

namespace NativeHeaders

/-- A search for a class. -/
structure ClassSearch where
  /-- The class. -/
  name : ClassName
  /-- The files in which it is looked for. -/
  files : FileSystem

namespace Generator

/-! ### Loading -/

/-- The search with which a class is loaded; there is none if its summary is kept. -/
def searchesFor (generator : Generator) (files : FileSystem) (name : ClassName) : List ClassSearch :=
  if (generator.cache.get? name.internal).isSome then [] else [{ name, files }]

/-- The search with which the class of a request is loaded. -/
def searchesForRequest (generator : Generator) (files : FileSystem) : ClassRequest → List ClassSearch
  | .named name => generator.searchesFor files name
  | .file _ => []

/-- The searches with which the classes of requests are loaded. -/
def searchesForRequests (generator : Generator) (files : FileSystem) :
    List ClassRequest → List ClassSearch
  | [] => []
  | request :: requests =>
    generator.searchesForRequest files request ++
      searchesForRequests (generator.loadRequest files request).2 files requests

/-! ### Rendering -/

/-- The search with which the superclass of a class is found. -/
def searchesForSuperclass (generator : Generator) (files : FileSystem) (className : String) :
    List ClassSearch :=
  match ClassName.ofInternal className with
  | .error _ => []
  | .ok name => generator.searchesFor files name

/-- The hierarchy of the classes that the generator can load; its state also lists the searches. -/
def tracedHierarchy (generator : Generator) (files : FileSystem) :
    Hierarchy (Generator × List ClassSearch) where
  canResolve := (generator.hierarchy files).canResolve
  superclassOf className state :=
    let (superName, after) := (generator.hierarchy files).superclassOf className state.1
    (superName, after, state.2 ++ state.1.searchesForSuperclass files className)
  bound := (generator.hierarchy files).bound

/-- The searches made while the header for one class is rendered. -/
def searchesForOne (generator : Generator) (files : FileSystem) (summary : ClassSummary) :
    List ClassSearch :=
  (Header.renderOne (generator.tracedHierarchy files) summary (generator, [])).2.2

/-- The searches made while one header for all classes is rendered. -/
def searchesForMany (generator : Generator) (files : FileSystem) (summaries : List ClassSummary) :
    List ClassSearch :=
  (Header.renderMany (generator.tracedHierarchy files) summaries (generator, [])).2.2

/-- The searches made while a header for each class is written. The files change after each one. -/
def searchesForEach (generator : Generator) (files : FileSystem) (directory : Path) :
    List ClassSummary → List ClassSearch
  | [] => []
  | summary :: summaries =>
    let aftermath := generator.writeEach files directory [summary] {}
    generator.searchesForOne files summary ++
      searchesForEach aftermath.generator aftermath.files directory summaries

/-! ### Whole generations -/

/-- The searches of a generation, in order. -/
def searches (generator : Generator) (files : FileSystem) (requests : List ClassRequest)
    (target : OutputTarget) : List ClassSearch :=
  let (summaries, _, loaded) := generator.loadAll files requests
  generator.searchesForRequests files requests ++ match target with
    | .singleFile _ => loaded.searchesForMany files summaries
    | .perClass directory => loaded.searchesForEach files directory summaries

/-- The files when a search ends the generation, if one does. -/
def interruption? (generator : Generator) (files : FileSystem) (requests : List ClassRequest)
    (target : OutputTarget) : Option FileSystem :=
  ((generator.searches files requests target).find? fun search =>
    generator.searchPath.comesToOverlong search.files search.name).map ClassSearch.files

end Generator

end NativeHeaders
