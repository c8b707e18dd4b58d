import NativeHeaders.Generator.Searches
import NativeHeaders.Proofs.Generator.Accounting
import NativeHeaders.Proofs.Header.Rendering
import NativeHeaders.Proofs.SearchPath.Places

/-! # Which searches a generation makes

Listing the searches changes nothing: the traced hierarchy renders the same texts and leaves the same
generators behind (`renderOne_tracedHierarchy`). So the list is what the generation goes through:
each search is made by the generator, and in the files, that loading the requests or writing the
headers in front of it leaves behind (`mem_searches`). A generation is interrupted exactly if one of
the searches comes to a file of a size that no buffer can have (`interruption?_eq_some`). -/

namespace NativeHeaders

/-! ### Walks that are traced -/

namespace Hierarchy

variable {σ τ : Type} {hierarchy : Hierarchy σ} {other : Hierarchy τ} {related : σ → τ → Prop}

/-- Walks end alike if superclasses are given alike. -/
theorem sameOutcome_walk
    (hsuper : ∀ className state state', related state state' →
      SameOutcome related (hierarchy.superclassOf className state)
        (other.superclassOf className state'))
    (steps : Nat) (seen : List String) (current : String) {state : σ} {state' : τ}
    (hstate : related state state') :
    SameOutcome related (hierarchy.walk steps seen current state)
      (other.walk steps seen current state') := by
  induction steps generalizing seen current state state' with
  | zero => exact ⟨rfl, hstate⟩
  | succ steps ih =>
    rw [walk, walk]
    by_cases hroot : current = throwableRoot
    · rw [if_pos hroot, if_pos hroot]
      exact ⟨rfl, hstate⟩
    · rw [if_neg hroot, if_neg hroot]
      by_cases hseen : current ∈ seen
      · rw [if_pos hseen, if_pos hseen]
        exact ⟨rfl, hstate⟩
      · rw [if_neg hseen, if_neg hseen]
        obtain ⟨hsame, hafter⟩ := hsuper current state state' hstate
        revert hsame hafter
        rcases hierarchy.superclassOf current state with ⟨_ | parent, after⟩ <;>
          rcases other.superclassOf current state' with ⟨_ | parent', after'⟩ <;>
          intro hsame hafter <;> cases hsame
        · exact ⟨rfl, hafter⟩
        · exact ih (current :: seen) parent hafter

/-- Hierarchies that give superclasses alike answer alike. -/
theorem answersLike_of_superclassOf (hresolve : hierarchy.canResolve = other.canResolve)
    (hbound : hierarchy.bound = other.bound)
    (hsuper : ∀ className state state', related state state' →
      SameOutcome related (hierarchy.superclassOf className state)
        (other.superclassOf className state')) :
    hierarchy.AnswersLike other related := by
  intro className state state' hstate
  rw [isThrowable, isThrowable, hresolve, hbound]
  cases other.canResolve with
  | true => exact sameOutcome_walk hsuper _ _ _ hstate
  | false => exact ⟨rfl, hstate⟩

end Hierarchy

namespace Generator

variable {generator : Generator} {files : FileSystem} {search : ClassSearch}

/-- The traced hierarchy answers as the hierarchy does, in the states without the list. -/
theorem answersLike_tracedHierarchy (generator : Generator) (files : FileSystem) :
    (generator.tracedHierarchy files).AnswersLike (generator.hierarchy files)
      fun traced state => traced.1 = state := by
  refine Hierarchy.answersLike_of_superclassOf rfl rfl ?_
  rintro className traced _ rfl
  exact ⟨rfl, rfl⟩

/-- **Listing searches does not change a rendering**: the text is the same, and so is the generator
afterwards. -/
theorem renderOne_tracedHierarchy (generator : Generator) (files : FileSystem)
    (summary : ClassSummary) (listed : List ClassSearch) :
    (Header.renderOne (generator.tracedHierarchy files) summary (generator, listed)).1 =
        (Header.renderOne (generator.hierarchy files) summary generator).1 ∧
      (Header.renderOne (generator.tracedHierarchy files) summary (generator, listed)).2.1 =
        (Header.renderOne (generator.hierarchy files) summary generator).2 := by
  obtain ⟨htext, hafter⟩ := Header.sameOutcome_renderOne
    (answersLike_tracedHierarchy generator files)
    (show (generator, listed).1 = generator from rfl) summary
  exact ⟨htext, hafter⟩

/-- Listing searches does not change the rendering of one header for many classes either. -/
theorem renderMany_tracedHierarchy (generator : Generator) (files : FileSystem)
    (summaries : List ClassSummary) (listed : List ClassSearch) :
    (Header.renderMany (generator.tracedHierarchy files) summaries (generator, listed)).1 =
        (Header.renderMany (generator.hierarchy files) summaries generator).1 ∧
      (Header.renderMany (generator.tracedHierarchy files) summaries (generator, listed)).2.1 =
        (Header.renderMany (generator.hierarchy files) summaries generator).2 := by
  obtain ⟨htext, hafter⟩ := Header.sameOutcome_renderMany
    (answersLike_tracedHierarchy generator files)
    (show (generator, listed).1 = generator from rfl) summaries
  exact ⟨htext, hafter⟩

/-! ### The searches in a generation -/

/-- Loading goes on with the generator that the first request leaves behind. -/
theorem loadAll_cons_snd (generator : Generator) (files : FileSystem) (request : ClassRequest)
    (requests : List ClassRequest) :
    (generator.loadAll files (request :: requests)).2.2 =
      ((generator.loadRequest files request).2.loadAll files requests).2.2 := by
  rcases h : generator.loadRequest files request with ⟨error | summary, after⟩
  · rw [loadAll_cons_error h, eq_of_loadRequest_error h]
  · rw [loadAll_cons_ok h]

/-- A search made while requests are loaded is made for one of them, by the generator that the
requests in front of it leave behind. -/
theorem mem_searchesForRequests {requests : List ClassRequest} :
    search ∈ generator.searchesForRequests files requests ↔
      ∃ before request after, requests = before ++ request :: after ∧
        search ∈ (generator.loadAll files before).2.2.searchesForRequest files request := by
  induction requests generalizing generator with
  | nil => simp [searchesForRequests]
  | cons first requests ih =>
    rw [searchesForRequests, List.mem_append, ih]
    constructor
    · rintro (hfirst | ⟨before, request, after, rfl, hsearch⟩)
      · exact ⟨[], first, requests, rfl, hfirst⟩
      · refine ⟨first :: before, request, after, rfl, ?_⟩
        rwa [loadAll_cons_snd]
    · rintro ⟨before, request, after, hrequests, hsearch⟩
      cases before with
      | nil =>
        obtain ⟨rfl, -⟩ := List.cons_eq_cons.mp hrequests
        exact .inl hsearch
      | cons other before =>
        obtain ⟨rfl, rfl⟩ := List.cons_eq_cons.mp hrequests
        rw [loadAll_cons_snd] at hsearch
        exact .inr ⟨before, request, after, rfl, hsearch⟩

/-- Without classes nothing is written. -/
theorem writeEach_nil (generator : Generator) (files : FileSystem) (directory : Path)
    (report : Report) :
    generator.writeEach files directory [] report = { result := report, generator, files } := rfl

/-- What the report says already matters neither for the generator nor for the files that writing
headers leaves behind. -/
theorem writeEach_report (generator : Generator) (files : FileSystem) (directory : Path)
    (summaries : List ClassSummary) (report other : Report) :
    (generator.writeEach files directory summaries report).generator =
        (generator.writeEach files directory summaries other).generator ∧
      (generator.writeEach files directory summaries report).files =
        (generator.writeEach files directory summaries other).files := by
  induction summaries generalizing generator files report other with
  | nil => exact ⟨rfl, rfl⟩
  | cons summary summaries ih =>
    rcases hrender : Header.renderOne (generator.hierarchy files) summary generator with
      ⟨_ | text, after⟩
    · rw [writeEach_cons_none hrender, writeEach_cons_none hrender]
      exact ih ..
    · rw [writeEach_cons_some hrender, writeEach_cons_some hrender]
      exact ih ..

/-- Writing headers goes on with the generator and in the files that the first header leaves behind.
-/
theorem writeEach_cons (generator : Generator) (files : FileSystem) (directory : Path)
    (summary : ClassSummary) (summaries : List ClassSummary) (report : Report) :
    generator.writeEach files directory (summary :: summaries) report =
      (generator.writeEach files directory [summary] report).generator.writeEach
        (generator.writeEach files directory [summary] report).files directory summaries
        (generator.writeEach files directory [summary] report).result := by
  rcases hrender : Header.renderOne (generator.hierarchy files) summary generator with
    ⟨_ | text, after⟩
  · simp only [writeEach_cons_none hrender, writeEach_nil]
  · simp only [writeEach_cons_some hrender, writeEach_nil]

/-- With no report to begin with, only the generator and the files go on behind the first header. -/
theorem writeEach_cons_empty (generator : Generator) (files : FileSystem) (directory : Path)
    (summary : ClassSummary) (summaries : List ClassSummary) :
    (generator.writeEach files directory (summary :: summaries) {}).generator =
        ((generator.writeEach files directory [summary] {}).generator.writeEach
          (generator.writeEach files directory [summary] {}).files directory summaries {}).generator ∧
      (generator.writeEach files directory (summary :: summaries) {}).files =
        ((generator.writeEach files directory [summary] {}).generator.writeEach
          (generator.writeEach files directory [summary] {}).files directory summaries {}).files := by
  rw [writeEach_cons]
  exact writeEach_report ..

/-- A search made while headers are written is made for one of the classes, by the generator and in
the files that the headers in front of it leave behind. -/
theorem mem_searchesForEach {directory : Path} {summaries : List ClassSummary} :
    search ∈ generator.searchesForEach files directory summaries ↔
      ∃ before summary after, summaries = before ++ summary :: after ∧
        search ∈ (generator.writeEach files directory before {}).generator.searchesForOne
          (generator.writeEach files directory before {}).files summary := by
  induction summaries generalizing generator files with
  | nil => simp [searchesForEach]
  | cons first summaries ih =>
    -- Writing the headers in front begins with the first one.
    have hstep := writeEach_cons_empty generator files directory first
    rw [searchesForEach, List.mem_append, ih]
    constructor
    · rintro (hfirst | ⟨before, summary, after, rfl, hsearch⟩)
      · exact ⟨[], first, summaries, rfl, hfirst⟩
      · refine ⟨first :: before, summary, after, rfl, ?_⟩
        rwa [(hstep before).1, (hstep before).2]
    · rintro ⟨before, summary, after, hsummaries, hsearch⟩
      cases before with
      | nil =>
        obtain ⟨rfl, -⟩ := List.cons_eq_cons.mp hsummaries
        exact .inl hsearch
      | cons other before =>
        obtain ⟨rfl, rfl⟩ := List.cons_eq_cons.mp hsummaries
        rw [(hstep before).1, (hstep before).2] at hsearch
        exact .inr ⟨before, summary, after, rfl, hsearch⟩

/-- **The searches that a generation makes**, by what leads to them. -/
inductive Makes (generator : Generator) (files : FileSystem) (requests : List ClassRequest) :
    OutputTarget → ClassSearch → Prop where
  /-- A request is loaded. -/
  | request {target : OutputTarget} {search : ClassSearch} {before after : List ClassRequest}
      {request : ClassRequest} (hrequests : requests = before ++ request :: after)
      (hsearch : search ∈ (generator.loadAll files before).2.2.searchesForRequest files request) :
      Makes generator files requests target search
  /-- The header for all classes that were loaded is rendered. -/
  | many {path : Path} {search : ClassSearch}
      (hsearch : search ∈ (generator.loadAll files requests).2.2.searchesForMany files
        (generator.loadedClasses files requests)) :
      Makes generator files requests (.singleFile path) search
  /-- The header for one of the classes that were loaded is rendered, and the headers in front of it
  have been written. -/
  | one {directory : Path} {search : ClassSearch} {before after : List ClassSummary}
      {summary : ClassSummary}
      (hsummaries : generator.loadedClasses files requests = before ++ summary :: after)
      {reached : Aftermath Report}
      (hreached : (generator.loadAll files requests).2.2.writeEach files directory before {} = reached)
      (hsearch : search ∈ reached.generator.searchesForOne reached.files summary) :
      Makes generator files requests (.perClass directory) search

/-- With one header for all classes, its rendering searches behind the requests. -/
theorem searches_singleFile (generator : Generator) (files : FileSystem)
    (requests : List ClassRequest) (path : Path) :
    generator.searches files requests (.singleFile path) =
      generator.searchesForRequests files requests ++
        (generator.loadAll files requests).2.2.searchesForMany files
          (generator.loadedClasses files requests) := rfl

/-- With a header for each class, their renderings search behind the requests. -/
theorem searches_perClass (generator : Generator) (files : FileSystem)
    (requests : List ClassRequest) (directory : Path) :
    generator.searches files requests (.perClass directory) =
      generator.searchesForRequests files requests ++
        (generator.loadAll files requests).2.2.searchesForEach files directory
          (generator.loadedClasses files requests) := rfl

/-- **`searches` lists the searches that a generation makes.** -/
theorem mem_searches {requests : List ClassRequest} {target : OutputTarget} :
    search ∈ generator.searches files requests target ↔
      generator.Makes files requests target search := by
  cases target with
  | singleFile path =>
    rw [searches_singleFile, List.mem_append, mem_searchesForRequests]
    constructor
    · rintro (⟨before, request, after, hrequests, hsearch⟩ | hsearch)
      · exact .request hrequests hsearch
      · exact .many hsearch
    · rintro (⟨hrequests, hsearch⟩ | hsearch)
      · exact .inl ⟨_, _, _, hrequests, hsearch⟩
      · exact .inr hsearch
  | perClass directory =>
    rw [searches_perClass, List.mem_append, mem_searchesForRequests, mem_searchesForEach]
    constructor
    · rintro (⟨before, request, after, hrequests, hsearch⟩ |
        ⟨before, summary, after, hsummaries, hsearch⟩)
      · exact .request hrequests hsearch
      · exact .one hsummaries rfl hsearch
    · rintro (⟨hrequests, hsearch⟩ | _ | ⟨hsummaries, rfl, hsearch⟩)
      · exact .inl ⟨_, _, _, hrequests, hsearch⟩
      · exact .inr ⟨_, _, _, hsummaries, hsearch⟩

/-! ### Interruptions -/

/-- **A search ends the generation**: it comes to a file for which its archive declares more bytes
than a buffer can have. -/
def IsInterrupted (generator : Generator) (files : FileSystem) (requests : List ClassRequest)
    (target : OutputTarget) : Prop :=
  ∃ search, generator.Makes files requests target search ∧
    generator.searchPath.ComesToOverlong search.files search.name

variable {requests : List ClassRequest} {target : OutputTarget} {after : FileSystem}

/-- **What an interruption leaves behind**: the files in which the first such search was made. -/
theorem interruption?_eq_some :
    generator.interruption? files requests target = some after ↔
      ∃ before search later, generator.searches files requests target = before ++ search :: later ∧
        (∀ earlier ∈ before,
          ¬generator.searchPath.ComesToOverlong earlier.files earlier.name) ∧
        generator.searchPath.ComesToOverlong search.files search.name ∧ search.files = after := by
  simp only [interruption?, Option.map_eq_some_iff, List.find?_eq_some_iff_append,
    SearchPath.comesToOverlong_iff, Bool.not_eq_true', ← Bool.not_eq_true]
  constructor
  · rintro ⟨search, ⟨hsearch, before, later, hsearches, hbefore⟩, hafter⟩
    exact ⟨before, search, later, hsearches, hbefore, hsearch, hafter⟩
  · rintro ⟨before, search, later, hsearches, hbefore, hsearch, hafter⟩
    exact ⟨search, ⟨hsearch, before, later, hsearches, hbefore⟩, hafter⟩

/-- Nothing ends the generation exactly if no search does. -/
theorem interruption?_eq_none :
    generator.interruption? files requests target = none ↔
      ¬generator.IsInterrupted files requests target := by
  simp only [interruption?, Option.map_eq_none_iff, List.find?_eq_none,
    SearchPath.comesToOverlong_iff, IsInterrupted, ← mem_searches, not_exists, not_and]

/-- A generation is not interrupted if no archive declares such a file. -/
theorem not_isInterrupted_of_isModest (h : generator.searchPath.IsModest) :
    ¬generator.IsInterrupted files requests target := by
  rintro ⟨search, -, hoverlong⟩
  exact h.not_comesToOverlong hoverlong

end Generator

end NativeHeaders
