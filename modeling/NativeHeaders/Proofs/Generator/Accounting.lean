import NativeHeaders.Proofs.Generator.Headers
import NativeHeaders.Proofs.Header.Rendering

/-! # What becomes of each request

A run loads its requests one after the other (`attempts`), and one that cannot be loaded leaves the
generator as it was. So a run writes what it would write without these requests, and its report
differs from the report of that run in their failures only. Each class that was loaded is entered
into the report once, or, where all go into one file, this file is. -/

namespace NativeHeaders

namespace Generator

/-! ### Loading -/

/-- A request with what came of it. -/
structure Attempt where
  /-- The request. -/
  request : ClassRequest
  /-- The class, or why it cannot be loaded. -/
  result : Except GenerationError ClassSummary

/-- How an attempt is reported that gave no class. -/
def Attempt.failure? (attempt : Attempt) : Option Failure :=
  match attempt.result with
  | .ok _ => none
  | .error error => some { className := attempt.request.display, error }

/-- The requests in order, each loaded by the generator that the earlier ones left behind. -/
def attempts (generator : Generator) (files : FileSystem) : List ClassRequest → List Attempt
  | [] => []
  | request :: requests =>
    let (result, generator) := generator.loadRequest files request
    { request, result } :: attempts generator files requests

/-- The requests without those that cannot be loaded. -/
def loadable (generator : Generator) (files : FileSystem) (requests : List ClassRequest) :
    List ClassRequest :=
  ((generator.attempts files requests).filter (·.result.isOk)).map Attempt.request

/-- The failures of the requests that cannot be loaded, in the order of the requests. -/
def loadFailures (generator : Generator) (files : FileSystem) (requests : List ClassRequest) :
    List Failure := (generator.attempts files requests).filterMap Attempt.failure?

variable {generator after : Generator} {files : FileSystem} {request : ClassRequest}
  {requests : List ClassRequest} {error : GenerationError} {summary : ClassSummary}

/-- What cannot be loaded is not kept. -/
theorem eq_of_loadRequest_error (h : generator.loadRequest files request = (.error error, after)) :
    after = generator := by
  cases request with
  | named name =>
    rw [loadRequest, load, SummaryCache.getOrLoad] at h
    cases hkept : generator.cache.get? name.internal with
    | some kept => simp [hkept] at h
    | none =>
      cases hload : generator.searchPath.load files name with
      | error cause =>
        simp only [hkept, hload, Prod.mk.injEq] at h
        exact h.2.symm
      | ok loaded => simp [hkept, hload] at h
  | file path =>
    rw [loadRequest, loadFile] at h
    cases hload : files.loadClassFile path with
    | error cause =>
      simp only [hload, Prod.mk.injEq] at h
      exact h.2.symm
    | ok loaded => simp [hload] at h

/-- A request that cannot be loaded is an attempt that failed, and the generator goes on as it was.
-/
theorem attempts_cons_error (h : generator.loadRequest files request = (.error error, after)) :
    generator.attempts files (request :: requests) =
      { request, result := .error error } :: generator.attempts files requests := by
  rw [attempts, h, eq_of_loadRequest_error h]

/-- A request that is loaded is an attempt that succeeded, and the generator goes on with what it
has learned. -/
theorem attempts_cons_ok (h : generator.loadRequest files request = (.ok summary, after)) :
    generator.attempts files (request :: requests) =
      { request, result := .ok summary } :: after.attempts files requests := by
  rw [attempts, h]

/-- A request that cannot be loaded is not among the loadable ones. -/
theorem loadable_cons_error (h : generator.loadRequest files request = (.error error, after)) :
    generator.loadable files (request :: requests) = generator.loadable files requests := by
  rw [loadable, attempts_cons_error h, List.filter_cons_of_neg (by simp [Except.isOk, Except.toBool]),
    loadable]

/-- A request that is loaded is the first of the loadable ones. -/
theorem loadable_cons_ok (h : generator.loadRequest files request = (.ok summary, after)) :
    generator.loadable files (request :: requests) = request :: after.loadable files requests := by
  rw [loadable, attempts_cons_ok h, List.filter_cons_of_pos (by simp [Except.isOk, Except.toBool]),
    List.map_cons, loadable]

/-- A request that cannot be loaded is the first of the failures. -/
theorem loadFailures_cons_error (h : generator.loadRequest files request = (.error error, after)) :
    generator.loadFailures files (request :: requests) =
      { className := request.display, error } :: generator.loadFailures files requests := by
  rw [loadFailures, attempts_cons_error h]
  rfl

/-- A request that is loaded is no failure. -/
theorem loadFailures_cons_ok (h : generator.loadRequest files request = (.ok summary, after)) :
    generator.loadFailures files (request :: requests) = after.loadFailures files requests := by
  rw [loadFailures, attempts_cons_ok h]
  rfl

/-- One step of `loadAll` when a request cannot be loaded. -/
theorem loadAll_cons_error (h : generator.loadRequest files request = (.error error, after)) :
    generator.loadAll files (request :: requests) =
      ((generator.loadAll files requests).1,
        { className := request.display, error } :: (generator.loadAll files requests).2.1,
        (generator.loadAll files requests).2.2) := by
  rw [loadAll, h, eq_of_loadRequest_error h]

/-- One step of `loadAll` when a request is loaded. -/
theorem loadAll_cons_ok (h : generator.loadRequest files request = (.ok summary, after)) :
    generator.loadAll files (request :: requests) =
      (summary :: (after.loadAll files requests).1, (after.loadAll files requests).2.1,
        (after.loadAll files requests).2.2) := by
  rw [loadAll, h]

/-- The failures of loading are those of the attempts. -/
theorem failures_loadAll (generator : Generator) (files : FileSystem)
    (requests : List ClassRequest) :
    (generator.loadAll files requests).2.1 = generator.loadFailures files requests := by
  induction requests generalizing generator with
  | nil => rfl
  | cons request requests ih =>
    rcases h : generator.loadRequest files request with ⟨error | summary, after⟩
    · rw [loadAll_cons_error h, loadFailures_cons_error h, ih]
    · rw [loadAll_cons_ok h, loadFailures_cons_ok h, ih]

/-- Without the requests that cannot be loaded, the same classes are loaded, nothing fails, and the
same summaries are kept. -/
theorem loadAll_loadable (generator : Generator) (files : FileSystem)
    (requests : List ClassRequest) :
    generator.loadAll files (generator.loadable files requests) =
      (generator.loadedClasses files requests, [], (generator.loadAll files requests).2.2) := by
  rw [loadedClasses]
  induction requests generalizing generator with
  | nil => rfl
  | cons request requests ih =>
    rcases h : generator.loadRequest files request with ⟨error | summary, after⟩
    · rw [loadable_cons_error h, loadAll_cons_error h, ih]
    · rw [loadable_cons_ok h, loadAll_cons_ok h, loadAll_cons_ok h, ih]

/-- Every request gives a class or a failure. -/
theorem length_loadedClasses_add (generator : Generator) (files : FileSystem)
    (requests : List ClassRequest) :
    (generator.loadedClasses files requests).length +
      (generator.loadFailures files requests).length = requests.length := by
  rw [loadedClasses]
  induction requests generalizing generator with
  | nil => rfl
  | cons request requests ih =>
    rcases h : generator.loadRequest files request with ⟨error | summary, after⟩
    · rw [loadAll_cons_error h, loadFailures_cons_error h, List.length_cons, List.length_cons,
        ← Nat.add_assoc, ih]
    · rw [loadAll_cons_ok h, loadFailures_cons_ok h, List.length_cons, List.length_cons,
        Nat.add_right_comm, ih]

/-! ### Reports -/

/-- The report with failures that came before its own. -/
def Report.afterFailures (failures : List Failure) (report : Report) : Report :=
  { report with failures := failures ++ report.failures }

/-- The number of classes and files that were written, found unchanged, or failed. -/
def Report.outcomes (report : Report) : Nat :=
  report.written.length + report.unchanged.length + report.failures.length

/-- Failures that stand in front do not matter when an output is entered. -/
@[simp] theorem record_afterFailures (failures : List Failure) (report : Report) (path : Path)
    (outcome : WriteOutcome) :
    (report.afterFailures failures).record path outcome =
      (report.record path outcome).afterFailures failures := by
  cases outcome <;> rfl

/-- Failures that stand in front do not matter when a header is entered, even if it failed. -/
theorem recordHeader_afterFailures (failures : List Failure) (report : Report) (path : Path)
    (className : String) (result : Except GenerationError WriteOutcome) :
    (report.afterFailures failures).recordHeader path className result =
      (report.recordHeader path className result).afterFailures failures := by
  cases result with
  | ok outcome => exact record_afterFailures failures report path outcome
  | error error => simp [Report.recordHeader, Report.fail, Report.afterFailures]

/-- Entering an output leaves the skipped classes as they are. -/
@[simp] theorem skipped_record (report : Report) (path : Path) (outcome : WriteOutcome) :
    (report.record path outcome).skipped = report.skipped := by
  cases outcome <;> rfl

/-- Entering an output leaves the failures as they are. -/
@[simp] theorem failures_record (report : Report) (path : Path) (outcome : WriteOutcome) :
    (report.record path outcome).failures = report.failures := by
  cases outcome <;> rfl

/-- An output file is entered into one of the two lists, once. -/
theorem length_record (report : Report) (path : Path) (outcome : WriteOutcome) :
    (report.record path outcome).written.length + (report.record path outcome).unchanged.length =
      report.written.length + report.unchanged.length + 1 := by
  cases outcome <;> simp [Report.record] <;> omega

/-- A header adds one outcome, whatever becomes of it. -/
theorem outcomes_recordHeader (report : Report) (path : Path) (className : String)
    (result : Except GenerationError WriteOutcome) :
    (report.recordHeader path className result).outcomes = report.outcomes + 1 := by
  cases result with
  | ok outcome =>
    have hlength := length_record report path outcome
    simp only [Report.recordHeader, Report.outcomes, failures_record]
    omega
  | error error =>
    simp only [Report.recordHeader, Report.fail, Report.outcomes, List.length_append,
      List.length_singleton]
    omega

/-- Entering a header leaves the skipped classes as they are. -/
@[simp] theorem skipped_recordHeader (report : Report) (path : Path) (className : String)
    (result : Except GenerationError WriteOutcome) :
    (report.recordHeader path className result).skipped = report.skipped := by
  cases result with
  | ok outcome => exact skipped_record report path outcome
  | error error => rfl

/-! ### Writing -/

/-- What a report says already has no influence on the headers of a run. -/
theorem writeEach_afterFailures (generator : Generator) (files : FileSystem) (directory : Path)
    (summaries : List ClassSummary) (failures : List Failure) (report : Report) :
    generator.writeEach files directory summaries (report.afterFailures failures) =
      { generator.writeEach files directory summaries report with
        result :=
          (generator.writeEach files directory summaries report).result.afterFailures failures } := by
  induction summaries generalizing generator files report with
  | nil => rfl
  | cons summary summaries ih =>
    rcases hrender : Header.renderOne (generator.hierarchy files) summary generator with
      ⟨_ | text, after⟩
    · rw [writeEach_cons_none hrender, writeEach_cons_none hrender, ih]
    · rw [writeEach_cons_some hrender, writeEach_cons_some hrender, recordHeader_afterFailures, ih]

/-- If nothing is rendered, one file for all classes is not written. -/
theorem writeSingle_none {path : Path} {summaries : List ClassSummary} {report : Report}
    (hrender : Header.renderMany (generator.hierarchy files) summaries generator = (none, after)) :
    generator.writeSingle files path summaries report =
      { result := .ok report, generator := after, files } := by
  rw [writeSingle, hrender]

/-- If a text is rendered, it is written to the one file, and the outcome is entered. -/
theorem writeSingle_some {path : Path} {summaries : List ClassSummary} {report : Report}
    {text : String}
    (hrender : Header.renderMany (generator.hierarchy files) summaries generator =
      (some text, after)) :
    generator.writeSingle files path summaries report =
      { result := (files.writeIfChanged path text).1.map (report.record path)
        generator := after
        files := (files.writeIfChanged path text).2 } := by
  rw [writeSingle, hrender]

/-- Failures that stand in front do not matter when one file is written for all classes. -/
theorem writeSingle_afterFailures (generator : Generator) (files : FileSystem) (path : Path)
    (summaries : List ClassSummary) (failures : List Failure) (report : Report) :
    generator.writeSingle files path summaries (report.afterFailures failures) =
      { generator.writeSingle files path summaries report with
        result := (generator.writeSingle files path summaries report).result.map
          (Report.afterFailures failures) } := by
  rcases hrender : Header.renderMany (generator.hierarchy files) summaries generator with
    ⟨_ | text, after⟩
  · rw [writeSingle_none hrender, writeSingle_none hrender]
    rfl
  · rw [writeSingle_some hrender, writeSingle_some hrender]
    cases (files.writeIfChanged path text).1 with
    | error error => rfl
    | ok outcome => simp [Except.map]

/-- Each class that declares something adds one outcome to the report. -/
theorem outcomes_writeEach (generator : Generator) (files : FileSystem) (directory : Path)
    (summaries : List ClassSummary) (report : Report) :
    (generator.writeEach files directory summaries report).result.outcomes =
        report.outcomes + (summaries.filter (!·.isEmpty)).length ∧
      (generator.writeEach files directory summaries report).result.skipped = report.skipped := by
  -- By induction on the classes that are left: one turn enters its header, if there is one.
  induction summaries generalizing generator files report with
  | nil => exact ⟨rfl, rfl⟩
  | cons summary summaries ih =>
    cases hempty : summary.isEmpty with
    | true =>
      have hrender : Header.renderOne (generator.hierarchy files) summary generator =
          (none, generator) := by
        rw [Header.renderOne, if_pos hempty]
      rw [writeEach_cons_none hrender, List.filter_cons_of_neg (by simp [hempty])]
      exact ih generator files report
    | false =>
      obtain ⟨text, after, hrender⟩ : ∃ text after,
          Header.renderOne (generator.hierarchy files) summary generator = (some text, after) := by
        rw [Header.renderOne, if_neg (by simp [hempty])]
        exact ⟨_, _, rfl⟩
      rw [writeEach_cons_some hrender, List.filter_cons_of_pos (by simp [hempty]),
        List.length_cons]
      obtain ⟨houtcomes, hskipped⟩ := ih after
        (files.writeIfChanged (headerPath directory summary) text).2
        (report.recordHeader (headerPath directory summary)
          (Text.substituted '/' '.' summary.name)
          (files.writeIfChanged (headerPath directory summary) text).1)
      rw [houtcomes, hskipped, outcomes_recordHeader, skipped_recordHeader]
      exact ⟨by omega, rfl⟩

/-- One file for all classes is left alone if none of them declares anything, and otherwise the header
is written and entered into the report. -/
theorem writeSingle_eq_ok {path : Path} {summaries : List ClassSummary} {report result : Report}
    (h : (generator.writeSingle files path summaries report).result = .ok result) :
    (summaries.all (·.isEmpty) = true ∧ result = report ∧
        (generator.writeSingle files path summaries report).files = files) ∨
      ¬summaries.all (·.isEmpty) = true ∧ ∃ text outcome,
        (Header.renderMany (generator.hierarchy files) summaries generator).1 = some text ∧
          result = report.record path outcome ∧
          files.writeIfChanged path text =
            (.ok outcome, (generator.writeSingle files path summaries report).files) := by
  rw [← @Header.renderMany_eq_none _ (generator.hierarchy files) generator]
  rcases hrender : Header.renderMany (generator.hierarchy files) summaries generator with
    ⟨_ | text, after⟩
  · rw [writeSingle_none hrender] at h ⊢
    cases h
    exact .inl ⟨rfl, rfl, rfl⟩
  · rw [writeSingle_some hrender] at h ⊢
    rcases hwrite : files.writeIfChanged path text with ⟨error | outcome, later⟩
    · rw [hwrite] at h
      cases h
    · rw [hwrite] at h
      cases h
      exact .inr ⟨by simp, text, outcome, rfl, rfl, hwrite⟩

/-- One file for all classes is entered into the report if a class declares something. -/
theorem outcomes_writeSingle {path : Path} {summaries : List ClassSummary} {report result : Report}
    (h : (generator.writeSingle files path summaries report).result = .ok result) :
    result.skipped = report.skipped ∧ result.failures = report.failures ∧
      result.written.length + result.unchanged.length =
        report.written.length + report.unchanged.length +
          if summaries.all (·.isEmpty) then 0 else 1 := by
  obtain ⟨hall, rfl, -⟩ | ⟨hsome, text, outcome, -, rfl, -⟩ := writeSingle_eq_ok h
  · rw [if_pos hall]
    exact ⟨rfl, rfl, rfl⟩
  · rw [if_neg hsome]
    exact ⟨skipped_record .., failures_record .., length_record ..⟩

/-! ### A run -/

/-- Writes headers for classes that are loaded. -/
def writeTo (generator : Generator) (files : FileSystem) (summaries : List ClassSummary)
    (report : Report) : OutputTarget → Aftermath (Except GenerationError Report)
  | .singleFile path => generator.writeSingle files path summaries report
  | .perClass directory =>
    { generator.writeEach files directory summaries report with
      result := .ok (generator.writeEach files directory summaries report).result }

/-- **Failures that stand in front do not matter for what is written**, whatever the target is. -/
theorem writeTo_afterFailures (generator : Generator) (files : FileSystem)
    (summaries : List ClassSummary) (failures : List Failure) (report : Report)
    (target : OutputTarget) :
    generator.writeTo files summaries (report.afterFailures failures) target =
      { generator.writeTo files summaries report target with
        result := (generator.writeTo files summaries report target).result.map
          (Report.afterFailures failures) } := by
  cases target with
  | singleFile path => exact writeSingle_afterFailures ..
  | perClass directory =>
    rw [writeTo, writeEach_afterFailures]
    rfl

/-- The names of the classes that were loaded and declare nothing. -/
def skippedNames (generator : Generator) (files : FileSystem) (requests : List ClassRequest) :
    List String :=
  ((generator.loadedClasses files requests).filter ClassSummary.isEmpty).map ClassSummary.name

/-- The report before anything is written. -/
def openingReport (generator : Generator) (files : FileSystem) (requests : List ClassRequest) :
    Report where
  skipped := generator.skippedNames files requests
  failures := generator.loadFailures files requests

/-- A run loads the classes and then writes their headers. -/
theorem generate_eq (generator : Generator) (files : FileSystem) (requests : List ClassRequest)
    (target : OutputTarget) :
    generator.generate files requests target =
      (generator.loadAll files requests).2.2.writeTo files (generator.loadedClasses files requests)
        (generator.openingReport files requests) target := by
  rw [openingReport, ← failures_loadAll, generate]
  cases target <;> rfl

/-- The requests that cannot be loaded add their failures to the report, and nothing else. -/
theorem generate_eq_generate_loadable (generator : Generator) (files : FileSystem)
    (requests : List ClassRequest) (target : OutputTarget) :
    generator.generate files requests target =
      { generator.generate files (generator.loadable files requests) target with
        result := (generator.generate files (generator.loadable files requests) target).result.map
          (Report.afterFailures (generator.loadFailures files requests)) } := by
  have hload := loadAll_loadable generator files requests
  have hclasses : generator.loadedClasses files (generator.loadable files requests) =
      generator.loadedClasses files requests := by
    rw [loadedClasses, hload]
  have hfailures : generator.loadFailures files (generator.loadable files requests) = [] := by
    rw [← failures_loadAll, hload]
  have hopening : generator.openingReport files requests =
      (generator.openingReport files (generator.loadable files requests)).afterFailures
        (generator.loadFailures files requests) := by
    simp [openingReport, Report.afterFailures, skippedNames, hclasses, hfailures]
  rw [generate_eq, generate_eq, hload, hclasses, hopening, writeTo_afterFailures]

/-- Every request is in the report that a run with the target gives. -/
def Accounts (generator : Generator) (files : FileSystem) (requests : List ClassRequest)
    (report : Report) : OutputTarget → Prop
  | .perClass _ =>
    report.written.length + report.unchanged.length + report.skipped.length +
      report.failures.length = requests.length
  | .singleFile _ =>
    report.skipped.length + report.failures.length +
        ((generator.loadedClasses files requests).filter (!·.isEmpty)).length = requests.length ∧
      report.written.length + report.unchanged.length =
        if (generator.loadedClasses files requests).all (·.isEmpty) then 0 else 1

/-- The report of a run accounts for its requests. -/
theorem accounts_of_generate {target : OutputTarget} {report : Report}
    (h : (generator.generate files requests target).result = .ok report) :
    generator.Accounts files requests report target := by
  have hrequests := length_loadedClasses_add generator files requests
  have hclasses := List.length_eq_length_filter_add (l := generator.loadedClasses files requests)
    ClassSummary.isEmpty
  have hskipped : (generator.openingReport files requests).skipped.length =
      ((generator.loadedClasses files requests).filter ClassSummary.isEmpty).length :=
    List.length_map ..
  rw [generate_eq] at h
  cases target with
  | singleFile path =>
    obtain ⟨hsame, hfailures, houtputs⟩ := outcomes_writeSingle h
    refine ⟨?_, houtputs.trans (Nat.zero_add _)⟩
    have hopening : (generator.openingReport files requests).failures =
        generator.loadFailures files requests := rfl
    rw [hsame, hfailures, hskipped, hopening]
    omega
  | perClass directory =>
    cases h
    obtain ⟨houtcomes, hsame⟩ := outcomes_writeEach (generator.loadAll files requests).2.2 files
      directory (generator.loadedClasses files requests) (generator.openingReport files requests)
    have hopening : (generator.openingReport files requests).outcomes =
        (generator.loadFailures files requests).length := Nat.zero_add _
    rw [hopening, Report.outcomes] at houtcomes
    rw [Accounts, hsame, hskipped]
    omega

/-- **Failing requests are isolated, and every request is in the report.** A run without the
requests that cannot be loaded leaves the same files and gives the same result, but for the failures
of these requests, which the whole run reports first. -/
theorem generate_loadable (generator : Generator) (files : FileSystem)
    (requests : List ClassRequest) (target : OutputTarget) :
    (generator.generate files requests target).files =
        (generator.generate files (generator.loadable files requests) target).files ∧
      (generator.generate files requests target).result =
        (generator.generate files (generator.loadable files requests) target).result.map
          (Report.afterFailures (generator.loadFailures files requests)) ∧
      ∀ report, (generator.generate files requests target).result = .ok report →
        generator.Accounts files requests report target := by
  have hsame := generate_eq_generate_loadable generator files requests target
  refine ⟨?_, ?_, fun report => accounts_of_generate⟩
  · rw [hsame]
  · rw [hsame]

/-- A class that is there, one that is not, a file that is not there, and the first class again. -/
def mixedRequests : List ClassRequest :=
  [.named { internal := "a/B" }, .named { internal := "a/C" }, .file ⟨"cp/a/C.class"⟩,
    .named { internal := "a/B" }]

/-- Of the four requests two are isolated; the header is written once and then found unchanged. -/
theorem generate_loadable_mixedRequests :
    twoClassesGenerator.loadable twoClasses mixedRequests =
        [.named { internal := "a/B" }, .named { internal := "a/B" }] ∧
      ∃ report, (twoClassesGenerator.generate twoClasses mixedRequests (.perClass ⟨"out"⟩)).result =
          .ok report ∧
        (report.written, report.unchanged, report.failures.map Failure.className) =
          ([⟨"out/a_B.h"⟩], [⟨"out/a_B.h"⟩], ["a.C", "cp/a/C.class"]) ∧
        twoClassesGenerator.Accounts twoClasses mixedRequests report (.perClass ⟨"out"⟩) := by
  refine ⟨by decide +kernel, _, rfl, by decide +kernel, ?_⟩
  exact (generate_loadable twoClassesGenerator twoClasses mixedRequests (.perClass ⟨"out"⟩)).2.2 _ rfl

end Generator

end NativeHeaders
