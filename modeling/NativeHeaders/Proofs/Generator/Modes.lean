import NativeHeaders.Proofs.Generator.Throwables
import NativeHeaders.Proofs.Header.Rendering

/-! # One header for many classes and one for each

Rendering asks the generator which classes are throwable, and so it fills the cache. Generators that
load alike are left loading alike (`LoadsLike.renderOne`), so that no rendering changes the text of
a later one. The header for many classes therefore has the blocks of the headers for each of them,
whichever of the generators that earlier renderings left behind renders these
(`renderMany_eq_renderOne`). -/

namespace NativeHeaders

namespace Generator

variable {generator other host state : Generator} {files later : FileSystem}

/-! ### Renderings by generators that load alike -/

/-- The hierarchies of generators that load alike answer alike. -/
theorem LoadsLike.answersLike {host' : Generator} {later' : FileSystem}
    (hhost : host.LoadsLike later generator files)
    (hhost' : host'.LoadsLike later' generator files) :
    (host.hierarchy later).AnswersLike (host'.hierarchy later') fun state state' =>
      state.LoadsLike later generator files ∧ state'.LoadsLike later' generator files := by
  rintro className state state' ⟨hstate, hstate'⟩
  refine ⟨?_, hhost.isThrowable hstate className, hhost'.isThrowable hstate' className⟩
  rw [Bool.eq_iff_iff, hhost.isThrowable_iff hstate, hhost'.isThrowable_iff hstate']

/-- A generator that renders a class goes on loading alike. -/
theorem LoadsLike.renderOne (h : host.LoadsLike later generator files) (summary : ClassSummary) :
    (Header.renderOne (host.hierarchy later) summary host).2.LoadsLike later generator files :=
  (Header.sameOutcome_renderOne (h.answersLike h) ⟨h, h⟩ summary).after.1

/-- Rendering one header for many classes leaves a generator that loads alike. -/
theorem LoadsLike.renderMany (h : host.LoadsLike later generator files)
    (summaries : List ClassSummary) :
    (Header.renderMany (host.hierarchy later) summaries host).2.LoadsLike later generator files :=
  (Header.sameOutcome_renderMany (h.answersLike h) ⟨h, h⟩ summaries).after.1

/-- Generators that load alike render a class alike. -/
theorem LoadsLike.renderOne_eq (h : host.LoadsLike later generator files) {host' : Generator}
    {later' : FileSystem} (h' : host'.LoadsLike later' generator files) (summary : ClassSummary) :
    (Header.renderOne (host.hierarchy later) summary host).1 =
      (Header.renderOne (host'.hierarchy later') summary host').1 :=
  (Header.sameOutcome_renderOne (h.answersLike h') ⟨h, h'⟩ summary).eq

/-- Generators that load alike render the same header for many classes. -/
theorem LoadsLike.renderMany_eq (h : host.LoadsLike later generator files) {host' : Generator}
    {later' : FileSystem} (h' : host'.LoadsLike later' generator files)
    (summaries : List ClassSummary) :
    (Header.renderMany (host.hierarchy later) summaries host).1 =
      (Header.renderMany (host'.hierarchy later') summaries host').1 :=
  (Header.sameOutcome_renderMany (h.answersLike h') ⟨h, h'⟩ summaries).eq

/-! ### Runs of renderings -/

/-- A generator is what rendering one or many classes leaves of the other one. -/
inductive Renders (files : FileSystem) (generator : Generator) : Generator → Prop where
  /-- A header for one class was rendered. -/
  | one (summary : ClassSummary) :
      Renders files generator (Header.renderOne (generator.hierarchy files) summary generator).2
  /-- A header for many classes was rendered. -/
  | many (summaries : List ClassSummary) :
      Renders files generator (Header.renderMany (generator.hierarchy files) summaries generator).2

/-- Whatever was rendered in between, a generator loads alike. -/
theorem Renders.loadsLike (hrenders : Renders files host other)
    (h : host.LoadsLike files generator files) : other.LoadsLike files generator files := by
  cases hrenders with
  | one summary => exact h.renderOne summary
  | many summaries => exact h.renderMany summaries

/-- After any renderings the generator loads as it did before. -/
theorem loadsLike_of_renders (h : Relation.ReflTransGen (Renders files) generator other) :
    other.LoadsLike files generator files := by
  induction h with
  | refl => exact .refl generator files
  | tail _ hrenders ih => exact hrenders.loadsLike ih

/-! ### Blocks -/

/-- The block of a class, rendered by its own generator. -/
def blockOf (files : FileSystem) (run : ClassSummary × Generator) : String :=
  (Header.renderBlock (run.2.hierarchy files) run.1 run.2).1

/-- Behind the banner stands the block of the class. -/
theorem renderOne_eq_blockOf {run : ClassSummary × Generator} (h : run.1.isEmpty = false) :
    (Header.renderOne (run.2.hierarchy files) run.1 run.2).1 =
      some (Header.banner ++ blockOf files run) := by
  rw [Header.renderOne, if_neg (Bool.eq_false_iff.mp h)]
  rfl

/-- Blocks rendered one after the other are the blocks of the classes. -/
theorem renderBlocks_eq (hhost : host.LoadsLike files generator files)
    (hstate : state.LoadsLike files generator files) {runs : List (ClassSummary × Generator)}
    (hruns : ∀ run ∈ runs, run.2.LoadsLike files generator files) :
    (Header.renderBlocks (host.hierarchy files) (runs.map Prod.fst) state).1 =
      runs.map (blockOf files) := by
  induction runs generalizing state with
  | nil => rfl
  | cons run runs ih =>
    rw [List.forall_mem_cons] at hruns
    obtain ⟨hblock, hafter, -⟩ :=
      Header.sameOutcome_renderBlock (hhost.answersLike hruns.1) ⟨hstate, hruns.1⟩ run.1
    exact congrArg₂ List.cons hblock (ih hafter hruns.2)

/-- **The two ways to render agree.** The header for many classes is rendered, and each class on its
own by a generator that earlier renderings may have left behind. There is no header for all exactly
if none of the classes has one, and otherwise it is the banner with, for each class that declares
something, in order, what stands behind the banner in its own header. -/
theorem renderMany_eq_renderOne (generator : Generator) (files : FileSystem)
    (runs : List (ClassSummary × Generator))
    (hruns : ∀ run ∈ runs, Relation.ReflTransGen (Renders files) generator run.2) :
    ((Header.renderMany (generator.hierarchy files) (runs.map Prod.fst) generator).1 = none ↔
        ∀ run ∈ runs, (Header.renderOne (run.2.hierarchy files) run.1 run.2).1 = none) ∧
      ((Header.renderMany (generator.hierarchy files) (runs.map Prod.fst) generator).1 ≠ none →
        ∃ blocks : List String,
          ((runs.filter (!·.1.isEmpty)).map fun run =>
              (Header.renderOne (run.2.hierarchy files) run.1 run.2).1) =
            blocks.map (fun block => some (Header.banner ++ block)) ∧
          (Header.renderMany (generator.hierarchy files) (runs.map Prod.fst) generator).1 =
            some (Header.banner ++ String.join blocks)) := by
  have hfilter : (runs.map Prod.fst).filter (!·.isEmpty) =
      (runs.filter (!·.1.isEmpty)).map Prod.fst := List.filter_map
  have hblocks : (Header.renderBlocks (generator.hierarchy files)
      ((runs.filter (!·.1.isEmpty)).map Prod.fst) generator).1 =
        (runs.filter (!·.1.isEmpty)).map (blockOf files) := by
    refine renderBlocks_eq (.refl generator files) (.refl generator files) fun run hrun => ?_
    exact loadsLike_of_renders (hruns run (List.mem_of_mem_filter hrun))
  have hmany : (Header.renderMany (generator.hierarchy files) (runs.map Prod.fst) generator).1 =
      if runs.filter (!·.1.isEmpty) = [] then none
      else some (Header.banner ++
        String.join ((runs.filter (!·.1.isEmpty)).map (blockOf files))) := by
    rw [Header.renderMany, hfilter, ← hblocks]
    cases runs.filter (!·.1.isEmpty) <;> rfl
  rw [hmany]
  constructor
  · simp only [Header.renderOne_eq_none, ite_eq_left_iff, reduceCtorEq, imp_false,
      Decidable.not_not, List.filter_eq_nil_iff, Bool.not_eq_true', Bool.not_eq_false]
  · intro hsome
    rw [if_neg fun hnone => hsome (if_pos hnone)]
    refine ⟨_, ?_, rfl⟩
    rw [List.map_map]
    refine List.map_congr_left fun run hrun => renderOne_eq_blockOf ?_
    simpa using (List.mem_filter.mp hrun).2

/-- A class with a native method whose parameters are a class that is throwable and one that is not.
-/
def catcher : ClassSummary where
  name := "C"
  superName := none
  groups := [{ name := "handle", methods := [{
    name := "handle", isStatic := false,
    types := { parameters := [.object "E", .object "L"], returnType := .void } }] }]

/-- A class that declares nothing. -/
def bystander : ClassSummary where
  name := "B"
  superName := none

/-- Three classes, the last of which is rendered by a generator that has seen the first one. -/
def catcherRuns : List (ClassSummary × Generator) :=
  [(catcher, ofSearchPath linkedPath), (bystander, ofSearchPath linkedPath),
    (catcher, (Header.renderOne ((ofSearchPath linkedPath).hierarchy linkedClasses) catcher
      (ofSearchPath linkedPath)).2)]

/-- The header for the three classes has two blocks, those of the two headers. -/
theorem renderMany_catcherRuns :
    (∀ run ∈ catcherRuns,
        Relation.ReflTransGen (Renders linkedClasses) (ofSearchPath linkedPath) run.2) ∧
      ∃ blocks : List String, blocks.length = 2 ∧
        (Header.renderMany ((ofSearchPath linkedPath).hierarchy linkedClasses)
          (catcherRuns.map Prod.fst) (ofSearchPath linkedPath)).1 =
            some (Header.banner ++ String.join blocks) := by
  have hruns : ∀ run ∈ catcherRuns,
      Relation.ReflTransGen (Renders linkedClasses) (ofSearchPath linkedPath) run.2 := by
    simp only [catcherRuns, List.forall_mem_cons, List.not_mem_nil, false_imp_iff, implies_true,
      and_true]
    exact ⟨.refl, .refl, .single (.one catcher)⟩
  obtain ⟨hnone, hsome⟩ :=
    renderMany_eq_renderOne (ofSearchPath linkedPath) linkedClasses catcherRuns hruns
  have hfirst := mt (fun hmany => hnone.mp hmany _ List.mem_cons_self)
    (show (Header.renderOne ((ofSearchPath linkedPath).hierarchy linkedClasses) catcher
      (ofSearchPath linkedPath)).1 ≠ none by simp [Header.renderOne, catcher, ClassSummary.isEmpty])
  obtain ⟨blocks, hblocks, hmany⟩ := hsome hfirst
  refine ⟨hruns, blocks, ?_, hmany⟩
  have hlength := congrArg List.length hblocks
  simpa [catcherRuns, catcher, bystander, ClassSummary.isEmpty] using hlength.symm

end Generator

end NativeHeaders
