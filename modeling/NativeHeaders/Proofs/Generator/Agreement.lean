import NativeHeaders.Proofs.Generator.Loading
import NativeHeaders.Proofs.SearchPath.Capacity

/-! # Generators that load alike

What a generator has loaded stays in its cache, so that a load by an internal name changes no later
one (`load_load`). Generators that load alike, on the same files or on different ones
(`LoadsLike`), give the same superclasses. Whatever the cache holds, the walk from superclass to
superclass ends by itself, so that such generators take the same classes for throwable
(`LoadsLike.isThrowable_iff`) and load alike afterwards (`LoadsLike.isThrowable`). -/

namespace NativeHeaders

/-- Names of two kinds are no more than those of both together. -/
theorem AtMost.or {first second : Nat} {holds other : String → Prop} (h : AtMost first holds)
    (hother : AtMost second other) :
    AtMost (first + second) fun name => holds name ∨ other name := by
  obtain ⟨names, hlength, hnames⟩ := h
  obtain ⟨others, hlength', hothers⟩ := hother
  refine ⟨names ++ others, ?_, ?_⟩
  · rw [List.length_append]
    omega
  · rintro name (hname | hname)
    · exact List.mem_append_left _ (hnames name hname)
    · exact List.mem_append_right _ (hothers name hname)

/-- A class is loaded exactly if its file is found and can be read. -/
theorem SearchPath.load_eq_ok {path : SearchPath} {files : FileSystem} {name : ClassName}
    {summary : ClassSummary} :
    path.load files name = .ok summary ↔
      ∃ source, path.resolve files name = .ok (some source) ∧
        ClassFile.read source.bytes.data.toList = .ok summary := by
  unfold load
  cases path.resolve files name with
  | error cause => simp
  | ok found =>
    cases found with
    | none => simp
    | some source =>
      simp only [Fallible.mapError_eq_ok, Except.ok.injEq, Option.some.injEq]
      constructor
      · intro hread
        exact ⟨source, rfl, hread⟩
      · rintro ⟨_, rfl, hread⟩
        exact hread

/-- A name under which something is kept is one of the entries. -/
theorem SummaryCache.mem_of_get?_eq_some {cache : SummaryCache} {name : String}
    {summary : ClassSummary} (h : cache.get? name = some summary) :
    name ∈ cache.entries.map Prod.fst := by
  obtain ⟨before, after, hentries, -⟩ := List.lookup_eq_some_iff.mp h
  simp [hentries]

namespace Generator

variable {generator other host state : Generator} {files later : FileSystem} {name : ClassName}
  {summary : ClassSummary} {className : String}

/-! ### Loads -/

/-- A load by an internal name changes no later one. -/
theorem load_load (generator : Generator) (files : FileSystem) (first second : String) :
    ((generator.load files { internal := first }).2.load files { internal := second }).1 =
      (generator.load files { internal := second }).1 := by
  rw [load_fst, load_fst, get?_load]
  cases generator.cache.get? second with
  | some kept => rfl
  | none =>
    by_cases hsame : first = second
    · -- The class is the one that was loaded, and kept if there is one.
      subst hsame
      rw [if_pos rfl]
      cases hload : generator.searchPath.load files { internal := first } with
      | error error => exact hload
      | ok summary => rfl
    · rw [if_neg hsame]
      rfl

/-- On the later files, the other generator loads classes by their internal names as the generator
does. -/
structure LoadsLike (other : Generator) (later : FileSystem) (generator : Generator)
    (files : FileSystem) : Prop where
  /-- The search path is the same. -/
  searchPath : other.searchPath = generator.searchPath
  /-- What is loaded is the same. -/
  load_eq : ∀ internal, ClassName.isInternal internal = true →
    (other.load later { internal }).1 = (generator.load files { internal }).1

/-- A generator loads like itself. -/
theorem LoadsLike.refl (generator : Generator) (files : FileSystem) :
    generator.LoadsLike files generator files := ⟨rfl, fun _ _ => rfl⟩

/-- Loading a class leaves a generator that loads alike. -/
theorem LoadsLike.load (h : other.LoadsLike later generator files) (internal : String) :
    (other.load later { internal }).2.LoadsLike later generator files where
  searchPath := h.searchPath
  load_eq := fun second hsecond =>
    (load_load other later internal second).trans (h.load_eq second hsecond)

/-! ### Superclasses -/

/-- The superclass of a class is read off the class that `load` gives for the name, if the name is a
legal one. -/
theorem superclassOf_eq (generator : Generator) (files : FileSystem) (className : String) :
    generator.superclassOf files className =
      if ClassName.isInternal className then
        ((generator.load files { internal := className }).1.toOption.bind ClassSummary.superName,
          (generator.load files { internal := className }).2)
      else (none, generator) := by
  rw [superclassOf]
  by_cases hinternal : ClassName.isInternal className = true
  · rw [ClassName.ofInternal_eq_ok.mpr ⟨rfl, hinternal⟩, if_pos hinternal]
    dsimp only
    cases generator.load files { internal := className } with
    | mk result after => cases result <;> rfl
  · rw [if_neg hinternal]
    cases hname : ClassName.ofInternal className with
    | error cause => rfl
    | ok name => exact absurd (ClassName.ofInternal_eq_ok.mp hname).2 hinternal

/-- Generators that load alike find the same superclasses. -/
theorem LoadsLike.superclassOf_eq (h : other.LoadsLike later generator files) (className : String) :
    (other.superclassOf later className).1 = (generator.superclassOf files className).1 := by
  rw [Generator.superclassOf_eq, Generator.superclassOf_eq]
  split
  · next hinternal => rw [h.load_eq className hinternal]
  · rfl

/-- Looking for a superclass leaves a generator that loads alike. -/
theorem LoadsLike.superclassOf (h : other.LoadsLike later generator files) (className : String) :
    (other.superclassOf later className).2.LoadsLike later generator files := by
  rw [Generator.superclassOf_eq]
  split
  · exact h.load className
  · exact h

/-- The generator gives the other class as the superclass. -/
def Extends (generator : Generator) (files : FileSystem) (className superName : String) : Prop :=
  (generator.superclassOf files className).1 = some superName

/-- Not more classes have a superclass than are kept or can be found. -/
theorem atMost_extends (generator : Generator) (files : FileSystem) :
    AtMost (generator.cache.size + generator.searchPath.capacity files) fun className =>
      ∃ superName, generator.Extends files className superName := by
  have hkept : AtMost generator.cache.size (· ∈ generator.cache.entries.map Prod.fst) :=
    ⟨generator.cache.entries.map Prod.fst, by simp [SummaryCache.size], fun _ hname => hname⟩
  refine (hkept.or (generator.searchPath.atMost_resolve files)).mono ?_
  rintro className ⟨superName, hextends⟩
  rw [Extends, Generator.superclassOf_eq] at hextends
  split at hextends
  · next hinternal =>
    cases hget : generator.cache.get? className with
    | some summary => exact .inl (SummaryCache.mem_of_get?_eq_some hget)
    | none =>
      right
      cases hload : generator.searchPath.load files { internal := className } with
      | error error =>
        rw [load_fst, hget, hload] at hextends
        cases hextends
      | ok summary =>
        obtain ⟨source, hresolve, -⟩ := SearchPath.load_eq_ok.mp hload
        exact ⟨hinternal, source, hresolve⟩
  · cases hextends

/-- The hierarchy of any generator gives the superclasses that the generator gives whose states load
alike. -/
theorem follows_extends (host generator : Generator) (files later : FileSystem) :
    (host.hierarchy later).Follows (generator.Extends files)
      (·.LoadsLike later generator files) where
  answers := fun _ hstate className superName => by
    rw [Extends, ← hstate.superclassOf_eq className]
    rfl
  keeps := fun _ hstate className => hstate.superclassOf className

/-! ### Throwable classes -/

/-- The superclasses that the generator gives lead to the root of the throwable classes. With
nothing to look classes up in, the class is one that is known to be throwable. -/
def TakesForThrowable (generator : Generator) (files : FileSystem) (className : String) : Prop :=
  if generator.searchPath.isEmpty then className ∈ Hierarchy.wellKnownThrowables
  else Relation.ReflTransGen (generator.Extends files) className Hierarchy.throwableRoot

/-- The walk of a generator ends by itself. -/
theorem LoadsLike.walks (hhost : host.LoadsLike later generator files)
    (hstate : state.LoadsLike later generator files)
    (hroots : generator.searchPath.isEmpty = false) (className : String) :
    (host.hierarchy later).Walks [] className state
      ((host.hierarchy later).isThrowable className state) := by
  have hresolve : (host.hierarchy later).canResolve = true := by
    simp [hierarchy, hhost.searchPath, hroots]
  have hcount : AtMost (host.hierarchy later).bound fun className =>
      ∃ superName, generator.Extends files className superName := by
    refine (host.atMost_extends later).mono fun className => ?_
    rintro ⟨superName, hextends⟩
    exact ⟨superName, (hhost.superclassOf_eq className).trans hextends⟩
  rw [Hierarchy.isThrowable, if_pos hresolve]
  exact Hierarchy.walks_walk (follows_extends host generator files later) hcount hstate
    List.nodup_nil (by simp) (by simp)

/-- Without roots, the answer is known and nothing is loaded. -/
theorem LoadsLike.isThrowable_of_isEmpty (hhost : host.LoadsLike later generator files)
    (hroots : generator.searchPath.isEmpty = true) (className : String) (state : Generator) :
    (host.hierarchy later).isThrowable className state =
      (Hierarchy.wellKnownThrowables.contains className, state) := by
  have hresolve : (host.hierarchy later).canResolve = false := by
    simp [hierarchy, hhost.searchPath, hroots]
  rw [Hierarchy.isThrowable, hresolve]
  rfl

/-- Generators that load alike take the same classes for throwable. -/
theorem LoadsLike.isThrowable_iff (hhost : host.LoadsLike later generator files)
    (hstate : state.LoadsLike later generator files) (className : String) :
    ((host.hierarchy later).isThrowable className state).1 = true ↔
      generator.TakesForThrowable files className := by
  rw [TakesForThrowable]
  split
  · next hroots =>
    rw [hhost.isThrowable_of_isEmpty hroots]
    exact List.contains_iff_mem
  · next hroots =>
    exact (hhost.walks hstate (Bool.eq_false_iff.mpr hroots) className).reaches
      (follows_extends host generator files later) hstate ⟨by simp, by simp⟩

/-- Asked whether a class is throwable, a generator goes on loading alike. -/
theorem LoadsLike.isThrowable (hhost : host.LoadsLike later generator files)
    (hstate : state.LoadsLike later generator files) (className : String) :
    ((host.hierarchy later).isThrowable className state).2.LoadsLike later generator files := by
  cases hroots : generator.searchPath.isEmpty with
  | true =>
    rw [hhost.isThrowable_of_isEmpty hroots]
    exact hstate
  | false =>
    exact (hhost.walks hstate hroots className).valid_after
      (follows_extends host generator files later) hstate

end Generator

end NativeHeaders
