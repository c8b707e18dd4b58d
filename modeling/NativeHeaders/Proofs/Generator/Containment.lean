import NativeHeaders.Proofs.FileSystem.Directories
import NativeHeaders.Proofs.FileSystem.Trees
import NativeHeaders.Proofs.Generator.Accounting

/-! # What a run touches

To write one output file changes no other file and makes only directories above it
(`writeIfChanged_within`). What was reported as written stays in the report when the loop goes on
(`writeEach_extends`). So a run changes no file but those that it reports as written, which all
stand where the target says (`generate_within`), whatever the classes are called and whatever fails.
What was a tree of directories before is one afterwards (`isTree_generate`). -/

namespace NativeHeaders

/-! ### One output file -/

namespace FileSystem

variable {files later : FileSystem} {path : Path} {text : String}

/-- The directories that are made for a file are on the way to it. -/
theorem prepareParent_within (files : FileSystem) (path : Path) :
    ChangesWithin ((files.prepareParent path).2.IsOnWay path path.steps.dropLast)
      (fun _ => False) files (files.prepareParent path).2 := by
  unfold prepareParent
  split
  · exact .refl _ _ files
  · next parent hparent =>
    split
    · exact .refl _ _ files
    · obtain ⟨hsteps, hstart⟩ := Path.steps_parent? hparent
      have hfront : parent.steps <+: path.steps.dropLast := hsteps ▸ List.prefix_rfl
      exact (createDirectories_within files parent).mono
        (fun location hway => hway.of_steps hfront hstart) fun _ => id

/-- Writing changes the file to which the path leads afterwards, and makes no directory. -/
theorem write_within {content : ByteArray} (h : files.write path content = .ok later) :
    ChangesWithin (fun _ => False) (fun location => later.resolve path = .ok location) files
      later := by
  obtain ⟨_, _, _, -, hresolve, -, hchanges⟩ := changes_of_write h
  refine ⟨hchanges.mono ?_, fun location hlater => .inl ?_⟩
  · rintro _ rfl
    exact hresolve
  · obtain ⟨directory, before, name, isExecutable, -, -, -, -, -, -, -, -, rfl⟩ := write_eq_ok h
    have hne : location ≠ directory ++ [name] := by
      rintro rfl
      rw [node?_setNode_self files _ (by simp)] at hlater
      cases hlater
    rwa [node?_setNode_of_ne files _ hne] at hlater

/-- Making a file hold a text changes this file, if it says so, and makes directories on the way to
it, even if it fails. -/
theorem writeIfChanged_within {result : Except GenerationError WriteOutcome}
    (h : files.writeIfChanged path text = (result, later)) :
    ChangesWithin (later.IsOnWay path path.steps.dropLast)
      (fun location => result = .ok .written ∧ later.resolve path = .ok location) files later := by
  have hparent := prepareParent_within files path
  obtain ⟨rfl, -⟩ | ⟨rfl, -⟩ | ⟨rfl, hwrite⟩ := writeIfChanged_cases h
  · exact .refl _ _ later
  · exact hparent.mono (fun _ => id) fun _ => False.elim
  · have hlast := write_within hwrite
    exact (hparent.mono (fun _ => hlast.changes.keepsPaths.isOnWay) fun _ => False.elim).trans
      (hlast.mono (fun _ => False.elim) fun _ hresolve => ⟨rfl, hresolve⟩)

/-- Making the directory for a file keeps a tree. -/
theorem IsTree.prepareParent (h : files.IsTree) (path : Path) :
    (files.prepareParent path).2.IsTree := by
  unfold FileSystem.prepareParent
  split
  · exact h
  · next parent _ =>
    split
    · exact h
    · exact h.createChain parent.ancestors

/-- Making a file hold a text keeps a tree, even if it fails. -/
theorem IsTree.writeIfChanged (h : files.IsTree) (path : Path) (text : String) :
    (files.writeIfChanged path text).2.IsTree := by
  rcases hwrite : files.writeIfChanged path text with ⟨result, later⟩
  obtain ⟨rfl, -⟩ | ⟨rfl, -⟩ | ⟨-, hlater⟩ := writeIfChanged_cases hwrite
  · exact h
  · exact h.prepareParent path
  · exact (h.prepareParent path).write hlater

end FileSystem

namespace Generator

variable {generator : Generator} {files after : FileSystem} {directory : Path}
  {summaries : List ClassSummary} {report : Report}

/-! ### The loop -/

/-- What became of a header enters its path into one of the lists, or into none. -/
theorem recordHeader_extends (report : Report) (path : Path) (className : String)
    (result : Except GenerationError WriteOutcome) :
    ∃ written unchanged,
      (report.recordHeader path className result).written = report.written ++ written ∧
      (report.recordHeader path className result).unchanged = report.unchanged ++ unchanged ∧
      ∀ output ∈ written ++ unchanged, output = path := by
  match result with
  | .ok .written => exact ⟨[path], [], rfl, (List.append_nil _).symm, by simp⟩
  | .ok .unchanged => exact ⟨[], [path], (List.append_nil _).symm, rfl, by simp⟩
  | .error _ => exact ⟨[], [], (List.append_nil _).symm, (List.append_nil _).symm, by simp⟩

/-- The loop enters paths of headers behind those that were entered before. -/
theorem writeEach_extends (generator : Generator) (files : FileSystem) (directory : Path)
    (summaries : List ClassSummary) (report : Report) :
    ∃ written unchanged,
      (generator.writeEach files directory summaries report).result.written =
        report.written ++ written ∧
      (generator.writeEach files directory summaries report).result.unchanged =
        report.unchanged ++ unchanged ∧
      ∀ output ∈ written ++ unchanged, ∃ summary, output = headerPath directory summary := by
  induction summaries generalizing generator files report with
  | nil => exact ⟨[], [], (List.append_nil _).symm, (List.append_nil _).symm, by simp⟩
  | cons summary summaries ih =>
    rcases hrender : Header.renderOne (generator.hierarchy files) summary generator with
      ⟨_ | text, next⟩
    · rw [writeEach_cons_none hrender]
      exact ih next files report
    · rw [writeEach_cons_some hrender]
      obtain ⟨written, unchanged, hwritten, hunchanged, hfirst⟩ :=
        recordHeader_extends report (headerPath directory summary)
          (Text.substituted '/' '.' summary.name)
          (files.writeIfChanged (headerPath directory summary) text).1
      obtain ⟨written', unchanged', hwritten', hunchanged', hrest⟩ := ih next
        (files.writeIfChanged (headerPath directory summary) text).2
        (report.recordHeader (headerPath directory summary)
          (Text.substituted '/' '.' summary.name)
          (files.writeIfChanged (headerPath directory summary) text).1)
      refine ⟨written ++ written', unchanged ++ unchanged', ?_, ?_, ?_⟩
      · rw [hwritten', hwritten, List.append_assoc]
      · rw [hunchanged', hunchanged, List.append_assoc]
      · intro output houtput
        simp only [List.mem_append] at houtput hfirst hrest
        obtain (h | h) | h | h := houtput
        · exact ⟨summary, hfirst output (.inl h)⟩
        · exact hrest output (.inl h)
        · exact ⟨summary, hfirst output (.inr h)⟩
        · exact hrest output (.inr h)

/-- The path of a header leads to an entry of the directory. -/
theorem isEntry_headerPath (directory : Path) (summary : ClassSummary) :
    (headerPath directory summary).IsEntry directory (Header.fileName summary.name) :=
  Path.isEntry_join directory (Header.isEntryName_fileName summary.name)
    (Header.slash_notMem_fileName summary.name)

/-- A class that is named like a path upwards has its header in the directory too. -/
example :
    headerPath ⟨"out"⟩ { name := "/../etc", superName := none } = ⟨"out/_.._etc.h"⟩ := by
  decide +kernel

/-- The file at the location is one of the written ones. -/
def Report.ListsWritten (report : Report) (files : FileSystem) (location : Location) : Prop :=
  ∃ output ∈ report.written, files.resolve output = .ok location

/-- The loop changes the files that it enters as written, and makes the directory and those on the
way to it. -/
theorem writeEach_within
    (hkeeps : (generator.writeEach files directory summaries report).files.KeepsPaths after) :
    files.ChangesWithin (after.IsOnWay directory directory.steps)
      ((generator.writeEach files directory summaries report).result.ListsWritten after)
      (generator.writeEach files directory summaries report).files := by
  -- By induction on the classes that are left, with the files after the run held fixed.
  induction summaries generalizing generator files report with
  | nil => exact .refl _ _ files
  | cons summary summaries ih =>
    rcases hrender : Header.renderOne (generator.hierarchy files) summary generator with
      ⟨_ | text, next⟩
    · rw [writeEach_cons_none hrender] at hkeeps ⊢
      exact ih hkeeps
    · rw [writeEach_cons_some hrender] at hkeeps ⊢
      rcases hwrite : files.writeIfChanged (headerPath directory summary) text with
        ⟨result, middle⟩
      rw [hwrite] at hkeeps
      have hfirst := FileSystem.writeIfChanged_within hwrite
      have hrest := ih hkeeps
      have hmiddle : middle.KeepsPaths after := hrest.changes.keepsPaths.trans hkeeps
      refine .trans (hfirst.mono (fun location hway => ?_) ?_) hrest
      · exact (hmiddle.isOnWay hway).of_entry (isEntry_headerPath directory summary)
      · rintro location ⟨rfl, hresolve⟩
        obtain ⟨written, -, hwritten, -⟩ := writeEach_extends next middle directory summaries
          (report.recordHeader (headerPath directory summary)
            (Text.substituted '/' '.' summary.name) (.ok .written))
        refine ⟨headerPath directory summary, ?_, hmiddle.resolve hresolve⟩
        rw [hwritten]
        simp [Report.recordHeader, Report.record]

end Generator

/-! ### The run -/

namespace OutputTarget

/-- The location is on the way of the target: it is the place of the chosen directory or of one above
it, or of one above the chosen file. -/
def Passes (target : OutputTarget) (files : FileSystem) (location : Location) : Prop :=
  match target with
  | .singleFile path => files.IsOnWay path path.steps.dropLast location
  | .perClass directory => files.IsOnWay directory directory.steps location

/-- The path is the one of the chosen file, or of a header in the chosen directory. -/
def Covers (target : OutputTarget) (output : Path) : Prop :=
  match target with
  | .singleFile path => output = path
  | .perClass directory => ∃ stem, '/' ∉ (stem ++ ".h").toList ∧
      output = directory.join (stem ++ ".h") ∧ output.IsEntry directory (stem ++ ".h")

end OutputTarget

namespace Generator

variable {generator : Generator} {files : FileSystem} {path : Path}
  {summaries : List ClassSummary} {report : Report}

/-- One file for all classes is the only one that changes, if it is entered as written; only
directories above it are made. -/
theorem writeSingle_within :
    files.ChangesWithin
      ((generator.writeSingle files path summaries report).files.IsOnWay path path.steps.dropLast)
      (fun location => ∃ result,
        (generator.writeSingle files path summaries report).result = .ok result ∧
          result.ListsWritten (generator.writeSingle files path summaries report).files location)
      (generator.writeSingle files path summaries report).files := by
  rcases hrender : Header.renderMany (generator.hierarchy files) summaries generator with
    ⟨_ | text, next⟩
  · rw [writeSingle_none hrender]
    exact .refl _ _ files
  · rw [writeSingle_some hrender]
    rcases hwrite : files.writeIfChanged path text with ⟨result, later⟩
    refine (FileSystem.writeIfChanged_within hwrite).mono (fun _ => id) ?_
    rintro location ⟨rfl, hresolve⟩
    refine ⟨report.record path .written, rfl, path, ?_, hresolve⟩
    simp [Report.record]

/-- **A run touches only its own output.** Whatever the classes are called, and whatever fails, the
only files that change are those to which the written paths of the report lead; the only new
directories stand on the way of the target, where nothing stood. A reported path is the one of the
chosen file, or it leads to an entry of the chosen directory that is named like a header. -/
theorem generate_within (generator : Generator) (files : FileSystem) (requests : List ClassRequest)
    (target : OutputTarget) :
    let aftermath := generator.generate files requests target
    files.ChangesWithin (target.Passes aftermath.files)
        (fun location => ∃ report, aftermath.result = .ok report ∧
          report.ListsWritten aftermath.files location) aftermath.files ∧
      (∀ report, aftermath.result = .ok report →
        ∀ output ∈ report.written ++ report.unchanged, target.Covers output) ∧
      ∀ directory, target = .perClass directory → ∃ report, aftermath.result = .ok report := by
  intro aftermath
  have haftermath : aftermath = _ := generate_eq generator files requests target
  rw [haftermath]
  cases target with
  | singleFile path =>
    refine ⟨writeSingle_within, fun report hreport => ?_, nofun⟩
    obtain ⟨-, rfl, -⟩ | ⟨-, _, outcome, -, rfl, -⟩ := writeSingle_eq_ok hreport
    · exact nofun
    · cases outcome <;> simp [Report.record, openingReport, OutputTarget.Covers]
  | perClass directory =>
    refine ⟨?_, ?_, fun _ _ => ⟨_, rfl⟩⟩
    · exact (writeEach_within (.refl _)).mono (fun _ => id) fun _ hlists => ⟨_, rfl, hlists⟩
    · rintro _ ⟨⟩ output houtput
      obtain ⟨written, unchanged, hwritten, hunchanged, hpaths⟩ :=
        writeEach_extends (generator.loadAll files requests).2.2 files directory
          (generator.loadedClasses files requests) (generator.openingReport files requests)
      rw [hwritten, hunchanged] at houtput
      obtain ⟨summary, rfl⟩ := hpaths output houtput
      exact ⟨_, Header.slash_notMem_fileName summary.name, rfl,
        isEntry_headerPath directory summary⟩

/-! ### Trees of files -/

/-- The loop keeps a tree. -/
theorem isTree_writeEach (h : files.IsTree) (directory : Path) :
    (generator.writeEach files directory summaries report).files.IsTree := by
  induction summaries generalizing generator files report with
  | nil => exact h
  | cons summary summaries ih =>
    rcases hrender : Header.renderOne (generator.hierarchy files) summary generator with
      ⟨_ | text, next⟩
    · rw [writeEach_cons_none hrender]
      exact ih h
    · rw [writeEach_cons_some hrender]
      exact ih (h.writeIfChanged _ text)

/-- **A run keeps the files a tree**, whatever it is asked for and whatever fails. -/
theorem isTree_generate (h : files.IsTree) (generator : Generator) (requests : List ClassRequest)
    (target : OutputTarget) : (generator.generate files requests target).files.IsTree := by
  rw [generate_eq]
  cases target with
  | perClass directory => exact isTree_writeEach h directory
  | singleFile path =>
    rcases hrender : Header.renderMany ((generator.loadAll files requests).2.2.hierarchy files)
      (generator.loadedClasses files requests) (generator.loadAll files requests).2.2 with
      ⟨_ | text, next⟩
    · rw [writeTo, writeSingle_none hrender]
      exact h
    · rw [writeTo, writeSingle_some hrender]
      exact h.writeIfChanged path text

end Generator

end NativeHeaders
