import NativeHeaders.Proofs.Generator.Agreement

/-! # Throwable classes of a generator

A generator decides whether a class is throwable by walking from superclass to superclass, and it
loads the classes on the way into its cache. If all classes were asked for by names without module,
the cache holds what the search path gives (`KnowsPlain`), so the walk follows the links that the
class files on the search path give (`follows_hierarchy`). Such a walk ends by itself, gives whether
the links lead to the root of the throwable classes, and changes no later answer
(`isThrowable_iff_reaches`). -/

namespace NativeHeaders

/-! ### Superclasses on a search path -/

namespace SearchPath

variable {path : SearchPath} {files : FileSystem}

/-- The class file that is found for a class names the other one as its superclass. -/
def Extends (path : SearchPath) (files : FileSystem) (className superName : String) : Prop :=
  ∃ name source summary, ClassName.ofInternal className = .ok name ∧
    path.resolve files name = .ok (some source) ∧
    ClassFile.read source.bytes.data.toList = .ok summary ∧ summary.superName = some superName

/-- The links are those between a legal name and the superclass of the class that is found for it.
-/
theorem extends_iff {className superName : String} :
    path.Extends files className superName ↔
      ClassName.ofInternal className = .ok { internal := className } ∧
        ∃ summary, path.load files { internal := className } = .ok summary ∧
          summary.superName = some superName := by
  simp only [load_eq_ok]
  constructor
  · rintro ⟨name, source, summary, hname, hresolve, hread, hsuper⟩
    obtain ⟨rfl, -⟩ := ClassName.ofInternal_eq_ok.mp hname
    exact ⟨hname, summary, ⟨source, hresolve, hread⟩, hsuper⟩
  · rintro ⟨hname, summary, ⟨source, hresolve, hread⟩, hsuper⟩
    exact ⟨_, source, summary, hname, hresolve, hread, hsuper⟩

end SearchPath

namespace Generator

variable {path : SearchPath} {files : FileSystem} {generator : Generator}

/-! ### What the cache holds -/

/-- The generator has loaded classes on the search path by names without module, and no others. -/
def KnowsPlain (generator : Generator) (path : SearchPath) (files : FileSystem) : Prop :=
  ∃ names : List ClassName, (∀ name ∈ names, name.moduleHint = none) ∧
    generator.Remembers path files names

/-- A new generator has loaded nothing, and so nothing by a name with a module. -/
theorem knowsPlain_ofSearchPath (path : SearchPath) (files : FileSystem) :
    (ofSearchPath path).KnowsPlain path files :=
  ⟨[], by simp, remembers_nil path files⟩

/-- A generator that `KnowsPlain` describes has the search path. -/
theorem KnowsPlain.searchPath (h : generator.KnowsPlain path files) :
    generator.searchPath = path := by
  obtain ⟨names, -, hremembers⟩ := h
  exact hremembers.searchPath

/-- The cache gives what the search path gives. -/
theorem KnowsPlain.load_eq (h : generator.KnowsPlain path files) (internal : String) :
    (generator.load files { internal }).1 = path.load files { internal } := by
  obtain ⟨names, hplain, hremembers⟩ := h
  refine (load_eq_fresh_iff hremembers { internal }).mpr fun summary hkept => ?_
  obtain ⟨name, hname, hload⟩ := List.exists_of_findSome?_eq_some hkept
  split at hload
  · next hinternal =>
    -- Without a module the internal name is the whole name.
    have hhint := hplain name hname
    cases name
    obtain rfl : _ = internal := hinternal
    obtain rfl : _ = none := hhint
    exact Fallible.toOption_eq_some.mp hload
  · cases hload

/-- Loading by a plain name keeps this. -/
theorem KnowsPlain.load (h : generator.KnowsPlain path files) (internal : String) :
    (generator.load files { internal }).2.KnowsPlain path files := by
  obtain ⟨names, hplain, hremembers⟩ := h
  refine ⟨names ++ [⟨internal, none⟩], ?_, hremembers.load { internal }⟩
  rw [List.forall_mem_append]
  exact ⟨hplain, by simp⟩

/-- Such a generator loads plain names as a new one does. -/
theorem KnowsPlain.loadsLike (h : generator.KnowsPlain path files) :
    generator.LoadsLike files (ofSearchPath path) files where
  searchPath := h.searchPath
  load_eq := fun internal _ => (h.load_eq internal).trans (load_ofSearchPath path files _).symm

/-- A fresh generator gives the superclass that the class file gives. -/
theorem extends_ofSearchPath (path : SearchPath) (files : FileSystem)
    (className superName : String) :
    (ofSearchPath path).Extends files className superName ↔
      path.Extends files className superName := by
  rw [SearchPath.extends_iff, Extends, superclassOf_eq, load_ofSearchPath,
    ClassName.ofInternal_eq_ok]
  split
  · next hinternal =>
    simp only [Option.bind_eq_some_iff, Fallible.toOption_eq_some]
    exact (and_iff_right ⟨trivial, hinternal⟩).symm
  · next hinternal => simp [hinternal]

/-- The generator answers with the superclass that the class file gives. -/
theorem KnowsPlain.superclassOf_eq_some (h : generator.KnowsPlain path files)
    (className superName : String) :
    (generator.superclassOf files className).1 = some superName ↔
      path.Extends files className superName := by
  rw [h.loadsLike.superclassOf_eq]
  exact extends_ofSearchPath path files className superName

/-- Looking for a superclass keeps this. -/
theorem KnowsPlain.superclassOf (h : generator.KnowsPlain path files) (className : String) :
    (generator.superclassOf files className).2.KnowsPlain path files := by
  rw [superclassOf_eq]
  split
  · exact h.load className
  · exact h

/-- The hierarchy of a generator gives the links of the class files on the search path. -/
theorem follows_hierarchy (generator : Generator) (path : SearchPath) (files : FileSystem) :
    (generator.hierarchy files).Follows (path.Extends files) (·.KnowsPlain path files) where
  answers := fun _ hknows className superName => hknows.superclassOf_eq_some className superName
  keeps := fun _ hknows className => hknows.superclassOf className

/-! ### Walks -/

/-- The walk of a generator ends by itself. -/
theorem KnowsPlain.walks (h : generator.KnowsPlain path files) (hroots : path.roots ≠ [])
    (className : String) :
    (generator.hierarchy files).Walks [] className generator
      (generator.isThrowable files className) :=
  h.loadsLike.walks h.loadsLike (List.isEmpty_eq_false_iff.mpr hroots) className

/-- **Such a generator takes a class for throwable exactly if the links lead from it to the root**
of the throwable classes. -/
theorem KnowsPlain.isThrowable_iff (h : generator.KnowsPlain path files) (hroots : path.roots ≠ [])
    (className : String) :
    (generator.isThrowable files className).1 = true ↔
      Relation.ReflTransGen (path.Extends files) className Hierarchy.throwableRoot :=
  (h.walks hroots className).reaches (follows_hierarchy generator path files) h
    ⟨by simp, by simp⟩

/-- Asking whether a class is throwable keeps this. -/
theorem KnowsPlain.isThrowable (h : generator.KnowsPlain path files) (hroots : path.roots ≠ [])
    (className : String) : (generator.isThrowable files className).2.KnowsPlain path files :=
  (h.walks hroots className).valid_after (follows_hierarchy generator path files) h

/-! ### Runs of queries -/

/-- What a generator may be asked about classes that are named without module. -/
inductive Query where
  /-- The summary of the class with an internal name. -/
  | load (internal : String)
  /-- The superclass of a class. -/
  | superclass (className : String)
  /-- Whether a class is throwable. -/
  | throwable (className : String)

/-- What a generator answers. -/
inductive Answer where
  /-- The summary, or why there is none. -/
  | loaded (result : Except GenerationError ClassSummary)
  /-- The superclass, if there is one. -/
  | superclass (superName : Option String)
  /-- Whether the class is throwable. -/
  | throwable (isThrowable : Bool)

/-- The answer to a query, with the generator after it. -/
def answer (generator : Generator) (files : FileSystem) : Query → Answer × Generator
  | .load internal =>
    let (result, generator) := generator.load files { internal }
    (.loaded result, generator)
  | .superclass className =>
    let (superName, generator) := generator.superclassOf files className
    (.superclass superName, generator)
  | .throwable className =>
    let (isThrowable, generator) := generator.isThrowable files className
    (.throwable isThrowable, generator)

/-- The answers to queries one after the other, with the generator after them. -/
def answers (generator : Generator) (files : FileSystem) : List Query → List Answer × Generator
  | [] => ([], generator)
  | query :: queries =>
    let (first, generator) := generator.answer files query
    let (rest, generator) := answers generator files queries
    (first :: rest, generator)

/-- Answering a plain query keeps this. -/
theorem KnowsPlain.answer (h : generator.KnowsPlain path files) (hroots : path.roots ≠ [])
    (query : Query) : (generator.answer files query).2.KnowsPlain path files := by
  cases query with
  | load internal => exact h.load internal
  | superclass className => exact h.superclassOf className
  | throwable className => exact h.isThrowable hroots className

/-- Generators that know the same search path give the same answer. -/
theorem KnowsPlain.answer_eq {other : Generator} (h : generator.KnowsPlain path files)
    (hother : other.KnowsPlain path files) (hroots : path.roots ≠ []) (query : Query) :
    (generator.answer files query).1 = (other.answer files query).1 := by
  cases query with
  | load internal =>
    have hload : (generator.load files { internal }).1 = (other.load files { internal }).1 :=
      (h.load_eq internal).trans (hother.load_eq internal).symm
    exact congrArg Answer.loaded hload
  | superclass className =>
    have hsuper : (generator.superclassOf files className).1 =
        (other.superclassOf files className).1 := by
      apply Option.ext
      intro superName
      rw [h.superclassOf_eq_some, hother.superclassOf_eq_some]
    exact congrArg Answer.superclass hsuper
  | throwable className =>
    have hthrowable : (generator.isThrowable files className).1 =
        (other.isThrowable files className).1 := by
      rw [Bool.eq_iff_iff, h.isThrowable_iff hroots, hother.isThrowable_iff hroots]
    exact congrArg Answer.throwable hthrowable

/-- So does answering plain queries one after the other. -/
theorem KnowsPlain.answers (h : generator.KnowsPlain path files) (hroots : path.roots ≠ [])
    (queries : List Query) : (generator.answers files queries).2.KnowsPlain path files := by
  induction queries generalizing generator with
  | nil => exact h
  | cons query queries ih => exact ih (h.answer hroots query)

/-- Two such generators answer plain queries alike. -/
theorem KnowsPlain.answers_eq {other : Generator} (h : generator.KnowsPlain path files)
    (hother : other.KnowsPlain path files) (hroots : path.roots ≠ []) (queries : List Query) :
    (generator.answers files queries).1 = (other.answers files queries).1 := by
  induction queries generalizing generator other with
  | nil => rfl
  | cons query queries ih =>
    exact List.cons_eq_cons.mpr ⟨h.answer_eq hother hroots query,
      ih (h.answer hroots query) (hother.answer hroots query)⟩

/-- The generator on a search path after queries. -/
def afterQueries (path : SearchPath) (files : FileSystem) (queries : List Query) : Generator :=
  ((ofSearchPath path).answers files queries).2

/-- **Which classes are throwable.** On a search path with a root, after any queries by names
without module, the walk that decides whether a class is throwable ends by itself. It finds that the
class is throwable exactly if following superclasses, as the class files on the search path give
them, leads to the root of the throwable classes. All later answers are the same as without this
walk. -/
theorem isThrowable_iff_reaches (path : SearchPath) (files : FileSystem) (hroots : path.roots ≠ [])
    (queries : List Query) (className : String) :
    ((afterQueries path files queries).hierarchy files).Walks [] className
        (afterQueries path files queries)
        ((afterQueries path files queries).isThrowable files className) ∧
      (((afterQueries path files queries).isThrowable files className).1 = true ↔
        Relation.ReflTransGen (path.Extends files) className Hierarchy.throwableRoot) ∧
      ∀ later,
        (((afterQueries path files queries).isThrowable files className).2.answers files later).1 =
          ((afterQueries path files queries).answers files later).1 := by
  have hknows : (afterQueries path files queries).KnowsPlain path files :=
    (knowsPlain_ofSearchPath path files).answers hroots queries
  refine ⟨hknows.walks hroots className, hknows.isThrowable_iff hroots className, fun later => ?_⟩
  exact (hknows.isThrowable hroots className).answers_eq hknows hroots later

/-- A class without members that names its superclass. -/
def linkClassFile (name superName : String) : ClassFile.Format.File where
  minor := 0
  major := 52
  poolCount := 5
  entries := [.utf8 name.toUTF8.data.toList, .classRef 1, .utf8 superName.toUTF8.data.toList,
    .classRef 3]
  flags := 0
  thisIndex := 2
  superIndex := 4
  interfaces := []
  fields := []
  methods := []
  attributes := []

/-- A class that extends the root of the throwable classes, and one that extends itself. -/
def linkedClasses : FileSystem where
  nodes := [(["cp"], .directory),
    (["cp", "E.class"], .file ⟨(linkClassFile "E" "java/lang/Throwable").encode.toArray⟩ false),
    (["cp", "L.class"], .file ⟨(linkClassFile "L" "L").encode.toArray⟩ false)]
  workingDirectory := []

/-- The search path with these classes. -/
def linkedPath : SearchPath where
  roots := [.classes { path := ⟨"cp"⟩, storage := .directory, releases := [] }]

/-- The links lead from the first class to the root, and from the second one they do not. -/
theorem isThrowable_linkedClasses :
    SearchPath.ofEntries linkedClasses [] [.classes ⟨"cp"⟩] = .ok linkedPath ∧
      linkedPath.roots ≠ [] ∧
      Relation.ReflTransGen (linkedPath.Extends linkedClasses) "E" Hierarchy.throwableRoot ∧
      ¬Relation.ReflTransGen (linkedPath.Extends linkedClasses) "L" Hierarchy.throwableRoot := by
  have hroots : linkedPath.roots ≠ [] := by simp [linkedPath]
  obtain ⟨-, hfirst, -⟩ :=
    isThrowable_iff_reaches linkedPath linkedClasses hroots [.throwable "L", .load "E"] "E"
  obtain ⟨-, hsecond, -⟩ :=
    isThrowable_iff_reaches linkedPath linkedClasses hroots [.superclass "L"] "L"
  refine ⟨rfl, hroots, hfirst.mp (by decide +kernel), fun hreaches => ?_⟩
  exact absurd (hsecond.mpr hreaches) (by decide +kernel)

end Generator

end NativeHeaders
