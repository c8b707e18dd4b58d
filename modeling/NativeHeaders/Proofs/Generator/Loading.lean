import Mathlib.Data.List.Basic
import NativeHeaders.Generator
import NativeHeaders.Proofs.ClassFile.Format

/-! # Loading classes one after the other

A generator that loads classes by name answers a name from its cache if a class with the same
internal name was loaded before, and the cache does not know in which module that class was found.
`Remembers` says what the cache holds after some names, `load_eq` what one more load gives, and
`loadEach_eq_fresh_iff` under which condition all loads of a run give what they would give first. -/

namespace NativeHeaders

/-! ### The cache -/

/-- The first of the names, taken in their order, that has the internal name and can be loaded
decides what is kept under it. -/
def SearchPath.firstLoaded (path : SearchPath) (files : FileSystem) (names : List ClassName)
    (internal : String) : Option ClassSummary :=
  names.findSome? fun name =>
    if name.internal = internal then (path.load files name).toOption else none

namespace Generator

variable {path : SearchPath} {files : FileSystem} {generator : Generator} {earlier : List ClassName}

/-- A load gives what is kept under the internal name, and without that what the search path gives.
-/
theorem load_fst (generator : Generator) (files : FileSystem) (name : ClassName) :
    (generator.load files name).1 =
      match generator.cache.get? name.internal with
      | some summary => .ok summary
      | none => generator.searchPath.load files name := by
  rw [load, SummaryCache.getOrLoad]
  -- What is kept is given away unseen; what is loaded is kept and given away.
  cases hkept : generator.cache.get? name.internal with
  | some summary => rfl
  | none =>
    cases generator.searchPath.load files name with
    | error error => rfl
    | ok summary => simp [SummaryCache.insert, hkept]

/-- A class that is loaded is kept under its internal name, unless one is kept there already. -/
theorem get?_load (generator : Generator) (files : FileSystem) (name : ClassName)
    (internal : String) :
    (generator.load files name).2.cache.get? internal =
      (generator.cache.get? internal).or
        (if name.internal = internal then (generator.searchPath.load files name).toOption
          else none) := by
  rw [Generator.load, SummaryCache.getOrLoad]
  cases hkept : generator.cache.get? name.internal with
  | some summary =>
    by_cases hname : name.internal = internal
    · subst hname
      simp [hkept]
    · simp [hname]
  | none =>
    cases hload : generator.searchPath.load files name with
    | error error => simp [Except.toOption]
    | ok summary =>
      by_cases hname : name.internal = internal
      · subst hname
        have hinsert : (generator.cache.insert name.internal summary).1 = summary := by
          rw [SummaryCache.insert, hkept]
        rw [if_pos rfl, hkept]
        show (generator.cache.insert name.internal summary).2.get? name.internal = some summary
        rw [SummaryCache.get?_insert_self, hinsert]
      · simp [SummaryCache.get?_insert_of_ne _ summary (Ne.symm hname), hname]

/-- The generator has loaded the names, in their order, and nothing else. -/
structure Remembers (generator : Generator) (path : SearchPath) (files : FileSystem)
    (names : List ClassName) : Prop where
  /-- Classes are looked for on the search path. -/
  searchPath : generator.searchPath = path
  /-- What is kept under a name is the first class that was loaded under it. -/
  cache : ∀ internal, generator.cache.get? internal = path.firstLoaded files names internal

/-- A new generator remembers that nothing was loaded. -/
theorem remembers_nil (path : SearchPath) (files : FileSystem) :
    (ofSearchPath path).Remembers path files [] := ⟨rfl, fun _ => rfl⟩

/-- A load gives what is kept under the internal name, and without that what the search path gives.
-/
theorem load_eq (h : generator.Remembers path files earlier) (name : ClassName) :
    (generator.load files name).1 =
      match path.firstLoaded files earlier name.internal with
      | some summary => .ok summary
      | none => path.load files name := by
  rw [← h.cache, ← h.searchPath]
  exact load_fst generator files name

/-- A new generator loads what the search path gives. -/
@[simp] theorem load_ofSearchPath (path : SearchPath) (files : FileSystem) (name : ClassName) :
    ((ofSearchPath path).load files name).1 = path.load files name :=
  load_eq (remembers_nil path files) name

/-- What was loaded first under a name does not change with further names. -/
theorem firstLoaded_concat (name : ClassName) (internal : String) :
    path.firstLoaded files (earlier ++ [name]) internal =
      (path.firstLoaded files earlier internal).or
        (if name.internal = internal then (path.load files name).toOption else none) := by
  rw [SearchPath.firstLoaded, List.findSome?_append]
  congr 1
  rw [List.findSome?_singleton]

/-- One more load adds its name to those that are remembered. -/
theorem Remembers.load (h : generator.Remembers path files earlier) (name : ClassName) :
    (generator.load files name).2.Remembers path files (earlier ++ [name]) := by
  refine ⟨h.searchPath, fun internal => ?_⟩
  rw [firstLoaded_concat, ← h.cache, ← h.searchPath]
  exact get?_load generator files name internal

/-! ### Runs of loads -/

/-- Loads classes one after the other. -/
def loadEach (generator : Generator) (files : FileSystem) :
    List ClassName → List (Except GenerationError ClassSummary) × Generator
  | [] => ([], generator)
  | name :: names =>
    let (result, generator) := generator.load files name
    let (results, generator) := loadEach generator files names
    (result :: results, generator)

/-- A class that was loaded under an internal name is also what the second name stands for. -/
def Agrees (path : SearchPath) (files : FileSystem) (first second : ClassName) : Prop :=
  first.internal = second.internal →
    ∀ summary, path.load files first = .ok summary → path.load files second = .ok summary

/-- What is kept under the internal name of a class is what the class stands for. -/
def AgreesWithKept (path : SearchPath) (files : FileSystem) (earlier : List ClassName)
    (name : ClassName) : Prop :=
  ∀ summary, path.firstLoaded files earlier name.internal = some summary →
    path.load files name = .ok summary

/-- Where nothing was loaded, every name agrees with what is kept. -/
theorem agreesWithKept_nil (path : SearchPath) (files : FileSystem) (name : ClassName) :
    AgreesWithKept path files [] name := by
  intro summary hkept
  cases hkept

/-- A load gives what the search path gives exactly if what is kept agrees with it. -/
theorem load_eq_fresh_iff (h : generator.Remembers path files earlier) (name : ClassName) :
    (generator.load files name).1 = path.load files name ↔
      AgreesWithKept path files earlier name := by
  rw [load_eq h, AgreesWithKept]
  cases path.firstLoaded files earlier name.internal with
  | none => simp
  | some kept => simp [eq_comm]

/-- With one more name that agrees with what is kept, the names that agree are those that agree with
this name, too. -/
theorem agreesWithKept_concat {name : ClassName} (hname : AgreesWithKept path files earlier name)
    (other : ClassName) :
    AgreesWithKept path files (earlier ++ [name]) other ↔
      AgreesWithKept path files earlier other ∧ Agrees path files name other := by
  unfold AgreesWithKept Agrees
  rw [firstLoaded_concat]
  constructor
  · intro h
    refine ⟨fun summary hkept => h summary (by rw [hkept]; rfl), fun hinternal summary hload => ?_⟩
    cases hkept : path.firstLoaded files earlier other.internal with
    | none => exact h summary (by simp [hkept, hinternal, hload, Except.toOption])
    | some kept =>
      -- The name agreed with what is kept, so that is what it loads.
      have hsame : path.load files name = .ok kept := hname kept (hinternal ▸ hkept)
      rw [hload] at hsame
      cases hsame
      exact h summary (by rw [hkept]; rfl)
  · rintro ⟨hearlier, hagrees⟩ summary hkept
    rw [Option.or_eq_some_iff] at hkept
    obtain hkept | ⟨-, hkept⟩ := hkept
    · exact hearlier summary hkept
    · split at hkept
      · next hinternal =>
        refine hagrees hinternal summary ?_
        cases hload : path.load files name with
        | error error => simp [hload, Except.toOption] at hkept
        | ok loaded => simpa [hload, Except.toOption] using hkept
      · cases hkept

/-- Behind earlier names, all loads of a run give what the search path gives if and only if each
name agrees with what the earlier names left in the cache, and with those in front of it. -/
theorem loadEach_eq_map_iff (h : generator.Remembers path files earlier) (names : List ClassName) :
    (generator.loadEach files names).1 = names.map (path.load files) ↔
      (∀ name ∈ names, AgreesWithKept path files earlier name) ∧
        names.Pairwise (Agrees path files) := by
  -- By induction on the run: a load adds its name to those that the cache remembers.
  induction names generalizing generator earlier with
  | nil => simp [loadEach]
  | cons name names ih =>
    rw [loadEach, List.map_cons, List.cons_eq_cons, load_eq_fresh_iff h, ih (h.load name),
      List.forall_mem_cons, List.pairwise_cons]
    constructor
    · rintro ⟨hname, hnames, hpairs⟩
      have hboth (other) (hother : other ∈ names) :=
        (agreesWithKept_concat hname other).mp (hnames other hother)
      exact ⟨⟨hname, fun other hother => (hboth other hother).1⟩,
        fun other hother => (hboth other hother).2, hpairs⟩
    · rintro ⟨⟨hname, hnames⟩, hagrees, hpairs⟩
      refine ⟨hname, fun other hother => ?_, hpairs⟩
      exact (agreesWithKept_concat hname other).mpr ⟨hnames other hother, hagrees other hother⟩

/-- **When requests do not influence each other.** In a run of loads every one gives what it would
give on a fresh generator, if and only if, of two names with the same internal name, the later one
stands for the class that the earlier one stands for, unless the earlier one cannot be loaded. -/
theorem loadEach_eq_fresh_iff (path : SearchPath) (files : FileSystem) (names : List ClassName) :
    ((ofSearchPath path).loadEach files names).1 =
        names.map (fun name => ((ofSearchPath path).load files name).1) ↔
      names.Pairwise fun first second => first.internal = second.internal →
        ∀ summary, ((ofSearchPath path).load files first).1 = .ok summary →
          ((ofSearchPath path).load files second).1 = .ok summary := by
  simp only [load_ofSearchPath]
  rw [loadEach_eq_map_iff (remembers_nil path files)]
  constructor
  · intro h
    exact h.2
  · intro h
    exact ⟨fun name _ => agreesWithKept_nil path files name, h⟩

/-- Requests do not influence each other if those for one class are all the same, as they are if
none names a module. -/
theorem loadEach_eq_map_of_inj {names : List ClassName}
    (h : ∀ first ∈ names, ∀ second ∈ names, first.internal = second.internal → first = second) :
    ((ofSearchPath path).loadEach files names).1 = names.map (path.load files) := by
  rw [loadEach_eq_map_iff (remembers_nil path files)]
  refine ⟨fun name _ => agreesWithKept_nil path files name, ?_⟩
  apply List.Pairwise.imp_of_mem _ (List.pairwise_of_forall fun _ _ => trivial)
  intro first second hfirst hsecond _ hinternal summary hload
  rwa [← h first hfirst second hsecond hinternal]

/-! ### Two modules with one class

The directory `mods` has two modules, and each has a class `p.A` of its own: the superclass of the
one in `beta` is `B`. Asked for first without a module, the class is found in `alpha`, and then
nobody gets the other one. -/

/-- The last bytes of a number, the lowest first. -/
def littleEndian : Nat → Nat → List UInt8
  | 0, _ => []
  | width + 1, number => UInt8.ofNat number :: littleEndian width (number / 256)

/-- Numbers, each with its width, one after the other. -/
def record (fields : List (Nat × Nat)) : List UInt8 :=
  fields.flatMap fun (width, number) => littleEndian width number

/-- An archive with one file, which is not packed. -/
def storedArchive (name : String) (content : List UInt8) : ByteArray :=
  let nameBytes := name.toUTF8.data.toList
  let facts := record [(2, 10), (2, 0), (2, Archive.Entry.storedMethod), (2, 0), (2, 33),
    (4, (Archive.checksum ⟨content.toArray⟩).toNat), (4, content.length), (4, content.length),
    (2, nameBytes.length), (2, 0)]
  let file := record [(4, Archive.Entry.localSignature)] ++ facts ++ nameBytes ++ content
  let directory := record [(4, Archive.Entry.signature), (2, 10)] ++ facts ++
    record [(2, 0), (2, 0), (2, 0), (4, 0), (4, 0)] ++ nameBytes
  let ending := record [(4, Archive.Placement.endSignature), (2, 0), (2, 0), (2, 1), (2, 1),
    (4, directory.length), (4, file.length), (2, 0)]
  ⟨(file ++ directory ++ ending).toArray⟩

/-- A class `p.A` without members. -/
def exampleClassFile (superIndex : UInt16) : ClassFile.Format.File where
  minor := 0
  major := 52
  poolCount := 5
  entries := [.utf8 "p/A".toUTF8.data.toList, .classRef 1, .utf8 "B".toUTF8.data.toList,
    .classRef 3]
  flags := 0
  thisIndex := 2
  superIndex := superIndex
  interfaces := []
  fields := []
  methods := []
  attributes := []

/-- Two modules with a class of the same name. -/
def twoModules : FileSystem where
  nodes := [(["mods"], .directory),
    (["mods", "alpha.jar"], .file (storedArchive "p/A.class" (exampleClassFile 0).encode) false),
    (["mods", "beta.jar"], .file (storedArchive "p/A.class" (exampleClassFile 4).encode) false)]
  workingDirectory := []

/-- The search path with the two modules. -/
def twoModulesPath : Except ResolveError SearchPath := do
  let alpha ← ClassTree.ofArchive twoModules ⟨"mods/alpha.jar"⟩
  let beta ← ClassTree.ofArchive twoModules ⟨"mods/beta.jar"⟩
  return { roots := [.modules { path := ⟨"mods"⟩, modules :=
    [{ name := Path.stem ⟨"mods/alpha.jar"⟩, tree := alpha },
      { name := Path.stem ⟨"mods/beta.jar"⟩, tree := beta }] }] }

/-- The archives of the directory come in the order of their names. -/
theorem filesIn_twoModules :
    twoModules.filesIn ⟨"mods"⟩ ClassTree.archiveExtensions =
      .ok [⟨"mods/alpha.jar"⟩, ⟨"mods/beta.jar"⟩] := by
  have hlist : twoModules.list ⟨"mods"⟩ = .ok ["alpha.jar", "beta.jar"] := rfl
  rw [FileSystem.filesIn_of_pairwise hlist (by decide +kernel)]
  rfl

/-- The directory of the two modules opens the search path `twoModulesPath`. -/
theorem ofEntries_twoModules :
    SearchPath.ofEntries twoModules [] [.modules ⟨"mods"⟩] = twoModulesPath := by
  have hdirectory : twoModules.isDirectory ⟨"mods"⟩ = true := by decide +kernel
  rw [SearchPath.ofEntries, List.mapM_cons, List.mapM_nil, SearchPath.rootFor?, Root.ofModules?,
    if_pos hdirectory, ModuleDirectory.ofPath, filesIn_twoModules, twoModulesPath]
  cases halpha : ClassTree.ofArchive twoModules ⟨"mods/alpha.jar"⟩ with
  | error cause => simp [bind, Except.bind, Except.mapError, halpha, List.mapM_cons]
  | ok alpha =>
    cases hbeta : ClassTree.ofArchive twoModules ⟨"mods/beta.jar"⟩ with
    | error cause =>
      simp [bind, Except.bind, Except.mapError, halpha, hbeta, List.mapM_cons]
      rfl
    | ok beta =>
      simp [bind, Except.bind, Except.mapError, halpha, hbeta, List.mapM_cons]
      rfl

/-- The superclasses of the classes that were loaded. -/
def superNames (results : List (Except GenerationError ClassSummary)) :
    List (Option (Option String)) :=
  results.map fun result => result.toOption.map ClassSummary.superName

/-- The second of two requests for `p.A` is answered with the class of the first one, and not with
the one in the module it names. -/
theorem exists_loadEach_ne_fresh :
    ∃ path first second, SearchPath.ofEntries twoModules [] [.modules ⟨"mods"⟩] = .ok path ∧
      ClassName.parse "p.A" = .ok first ∧ ClassName.parse "beta/p.A" = .ok second ∧
      ((ofSearchPath path).loadEach twoModules [first, second]).1 ≠
        [first, second].map fun name => ((ofSearchPath path).load twoModules name).1 := by
  let first : ClassName := { internal := "p/A" }
  let second : ClassName := { internal := "p/A", moduleHint := some "beta" }
  have hsuper : twoModulesPath.toOption.map (fun path =>
      (superNames ((ofSearchPath path).loadEach twoModules [first, second]).1,
        superNames
          ([first, second].map fun name => ((ofSearchPath path).load twoModules name).1))) =
      some ([some none, some none], [some none, some (some "B")]) := by decide +kernel
  cases hpath : twoModulesPath with
  | error cause =>
    rw [hpath] at hsuper
    cases hsuper
  | ok path =>
    rw [hpath] at hsuper
    refine ⟨path, first, second, ofEntries_twoModules.trans hpath, rfl, rfl, fun hsame => ?_⟩
    -- The run finds no superclass twice, and a fresh generator finds one the second time.
    obtain ⟨hrun, hfresh⟩ := Prod.mk.inj (Option.some.inj hsuper)
    rw [hsame, hfresh] at hrun
    revert hrun
    decide

end Generator

end NativeHeaders
