import NativeHeaders.Proofs.ClassName.Spellings
import NativeHeaders.Proofs.Generator.Accounting
import NativeHeaders.Proofs.Generator.Modes
import NativeHeaders.Proofs.Header.Comments
import NativeHeaders.Proofs.SearchPath.Stability

/-! # Generating again

A run writes headers and makes directories. If none of its files is a class file or an archive that
it reads, and none of the directories that it searches came into being, a second run finds all it
needs as the first one did (`Calm.load_eq`). So it renders the same texts, finds each of them in its
file, and changes nothing (`generate_again`). -/

namespace NativeHeaders

/-! ### Names and paths of headers -/

namespace Header

/-- The name of a header file is not one of a class file. -/
theorem not_namesClassFile_fileName (className : String) :
    ¬NamesClassFile (fileName className) := by
  intro h
  obtain ⟨front, hname⟩ := h
  have hlast := getLast?_fileName className
  rw [← hname, List.getLast?_append] at hlast
  exact absurd hlast (by simp)

/-- A dot at the start counts for nothing; any other one stands in front of the extension. -/
theorem extension_fileName (className : String) :
    (Path.splitExtension (fileName className)).2 = none ∨
      (Path.splitExtension (fileName className)).2 = some "h" := by
  obtain ⟨front, hname⟩ : ∃ front : List Char,
      (fileName className).toList.reverse = 'h' :: '.' :: front := by
    rw [fileName, String.toList_append, List.reverse_append]
    exact ⟨_, rfl⟩
  rw [Path.splitExtension, hname]
  cases front with
  | nil => exact .inl rfl
  | cons c front => exact .inr rfl

/-- The name of a header file is not one of an archive. -/
theorem not_namesArchive_fileName (className : String) : ¬NamesArchive (fileName className) := by
  rw [NamesArchive]
  obtain hnone | hsome := extension_fileName className
  · rw [hnone]
    decide
  · rw [hsome]
    decide

end Header

/-- The paths of the headers for classes, in the order of the classes. -/
def OutputTarget.outputs (target : OutputTarget) (summaries : List ClassSummary) : List Path :=
  match target with
  | .singleFile path => if summaries.all (·.isEmpty) then [] else [path]
  | .perClass directory => (summaries.filter (!·.isEmpty)).map (Generator.headerPath directory)

/-- The headers for the classes do not take each other's place, and not the place of an opened
archive or of a class file. -/
def OutputTarget.Suits (target : OutputTarget) (path : SearchPath) (after : FileSystem)
    (summaries : List ClassSummary) : Prop :=
  match target with
  | .singleFile output => ¬NamesClassFile output.text ∧ ∀ tree ∈ path.trees, ∀ opened,
      tree.storage = .archive opened → after.resolve output ≠ .ok opened.location
  | .perClass _ => ∀ first ∈ summaries, ∀ second ∈ summaries, first.isEmpty = false →
      second.isEmpty = false → Header.fileName first.name = Header.fileName second.name →
        first = second

/-- The paths lead to the same place. -/
def FileSystem.SameFile (files : FileSystem) (first second : Path) : Prop :=
  ∃ location, files.resolve first = .ok location ∧ files.resolve second = .ok location

namespace Generator

variable {generator host state : Generator} {files middle later after : FileSystem}
  {path : SearchPath} {requests : List ClassRequest} {directory output : Path}
  {summaries : List ClassSummary} {report : Report} {text : String}

/-! ### Places where headers may stand -/

/-- A header at the location is neither a class file, nor an archive of the search path, nor a file
that was asked for. -/
structure MayStandAt (path : SearchPath) (requests : List ClassRequest) (after : FileSystem)
    (location : Location) : Prop where
  /-- The name is not the one of a class file. -/
  notClassFile : ∀ directory name, location = directory ++ [name] → ¬NamesClassFile name
  /-- No archive of the search path stands there. -/
  notArchive : ∀ tree ∈ path.trees, ∀ opened, tree.storage = .archive opened →
    opened.location ≠ location
  /-- No file that was asked for stands there. -/
  notRequested : ∀ file, .file file ∈ requests → after.resolve file ≠ .ok location

/-- Wherever a header is written to the path, it may stand there. -/
structure MayBeOutput (path : SearchPath) (requests : List ClassRequest) (after : FileSystem)
    (output : Path) : Prop where
  /-- The path does not end in the name of a class file. -/
  notClassFile : ∀ front name, output.parts = front ++ [name] → ¬NamesClassFile name
  /-- It does not lead to an archive of the search path. -/
  notArchive : ∀ tree ∈ path.trees, ∀ opened, tree.storage = .archive opened →
    after.resolve output ≠ .ok opened.location
  /-- It does not lead to a file that was asked for. -/
  notRequested : ∀ file, .file file ∈ requests → ∀ location, after.resolve output = .ok location →
    after.resolve file ≠ .ok location

/-- Making a file hold a header changes only places where headers may stand. -/
theorem MayBeOutput.changes (h : MayBeOutput path requests after output) {outcome : WriteOutcome}
    (hwrite : files.writeIfChanged output text = (.ok outcome, later))
    (hkeeps : later.KeepsPaths after) :
    files.ChangesAt (MayStandAt path requests after) later := by
  obtain ⟨-, rfl⟩ | ⟨middle, hparent, hwrite⟩ := FileSystem.writeIfChanged_eq_ok hwrite
  · exact .refl _ _
  · obtain ⟨directory, front, name, hparts, hresolve, -, hchanges⟩ :=
      FileSystem.changes_of_write hwrite
    have hafter := hkeeps.resolve hresolve
    refine (hparent.mono fun _ => False.elim).trans (hchanges.mono ?_)
    rintro _ rfl
    refine ⟨fun directory' name' heq => ?_, fun tree htree opened hstorage heq => ?_,
      fun file hfile => h.notRequested file hfile _ hafter⟩
    · obtain rfl : name = name' := by simpa using (List.append_inj' heq rfl).2
      exact h.notClassFile front name hparts
    · exact h.notArchive tree htree opened hstorage (heq ▸ hafter)

/-! ### What is loaded again -/

/-- The search path was opened at some time, and none of its directories is new after the run. -/
structure Calm (path : SearchPath) (files after : FileSystem) : Prop where
  /-- Everything stands in a directory. -/
  isTree : files.IsTree
  /-- The roots were opened. -/
  opened : ∃ earlier, ∀ tree ∈ path.trees, tree.OpenedFrom earlier
  /-- Directories that are there were there. -/
  directory : ∀ tree ∈ path.trees, tree.storage = .directory →
    after.isDirectory tree.path = true → files.isDirectory tree.path = true

/-- On the way from the one file system to the other, only headers were written. -/
structure IsBetween (path : SearchPath) (requests : List ClassRequest)
    (files after middle : FileSystem) : Prop where
  /-- So far only headers were written. -/
  changes : files.ChangesAt (MayStandAt path requests after) middle
  /-- All paths stay. -/
  keepsPaths : middle.KeepsPaths after

/-- The headers that are written take the place of no class file. -/
theorem Calm.sparesClasses (h : Calm path files after)
    (hmiddle : IsBetween path requests files after middle) :
    files.SparesClasses (MayStandAt path requests after) middle where
  isTree := h.isTree
  changes := hmiddle.changes
  classFile := fun directory name hname hplace => hplace.notClassFile directory name rfl hname

/-- While headers are written, a class is loaded as it was in the beginning. -/
theorem Calm.load_eq (h : Calm path files after)
    (hmiddle : IsBetween path requests files after middle) {name : ClassName}
    (hinternal : ClassName.isInternal name.internal = true) :
    path.load middle name = path.load files name := by
  obtain ⟨earlier, hopened⟩ := h.opened
  have hkeeps : ∀ tree ∈ path.trees,
      tree.Keeps (MayStandAt path requests after) files middle := by
    intro tree htree
    refine (hopened tree htree).keeps (fun hstorage hdirectory => ?_) fun opened hstorage hplace =>
      hplace.notArchive tree htree opened hstorage rfl
    obtain ⟨location, hresolve, hnode⟩ := FileSystem.exists_resolve_of_isDirectory hdirectory
    exact h.directory tree htree hstorage (FileSystem.isDirectory_of_resolve
      (hmiddle.keepsPaths.resolve hresolve) (hmiddle.keepsPaths.directory location hnode))
  have hresolve : path.resolve middle name = path.resolve files name :=
    SearchPath.resolve_eq hkeeps (h.sparesClasses hmiddle) hinternal
  rw [SearchPath.load, SearchPath.load, hresolve]

/-- A generator that loads alike goes on loading alike when headers are written. -/
theorem Calm.loadsLike (h : Calm path files after)
    (hmiddle : IsBetween path requests files after middle)
    (hlater : IsBetween path requests files after later) (hpath : generator.searchPath = path)
    (hstate : state.LoadsLike middle generator files) : state.LoadsLike later generator files where
  searchPath := hstate.searchPath
  load_eq := fun internal hinternal => by
    have hmiddle : path.load middle { internal } = path.load files { internal } :=
      h.load_eq hmiddle hinternal
    have hlater : path.load later { internal } = path.load files { internal } :=
      h.load_eq hlater hinternal
    rw [← hstate.load_eq internal hinternal, load_fst, load_fst, hstate.searchPath, hpath, hlater,
      hmiddle]

/-- A file that was asked for and read is read again. -/
theorem IsBetween.read_eq (h : IsBetween path requests files after after) {file : Path}
    (hfile : .file file ∈ requests) {content : ByteArray} (hread : files.read file = .ok content) :
    after.read file = .ok content := by
  rw [FileSystem.read_eq_ok] at hread ⊢
  obtain ⟨location, hresolve, hcontent⟩ := hread
  have hafter := h.changes.keepsPaths.resolve hresolve
  have hplace : ¬MayStandAt path requests after location := fun hplace =>
    hplace.notRequested file hfile hafter
  exact ⟨location, hafter, (h.changes.contentAt?_eq hplace).trans hcontent⟩

/-- Without failures, every file that was asked for was read. -/
theorem exists_read_of_loadFailures (h : generator.loadFailures files requests = []) {file : Path}
    (hfile : .file file ∈ requests) : ∃ content, files.read file = .ok content := by
  induction requests generalizing generator with
  | nil => cases hfile
  | cons request requests ih =>
    rcases hload : generator.loadRequest files request with ⟨error | summary, next⟩
    · rw [loadFailures_cons_error hload] at h
      cases h
    · rw [loadFailures_cons_ok hload] at h
      obtain rfl | hfile := List.mem_cons.mp hfile
      · rw [loadRequest, loadFile] at hload
        cases hclass : files.loadClassFile file with
        | error cause => simp [hclass] at hload
        | ok loaded =>
          obtain ⟨content, hread, -⟩ := Fallible.bind_eq_ok.mp hclass
          exact ⟨content, Fallible.mapError_eq_ok.mp hread⟩
      · exact ih h hfile

/-- Loading leaves the search path as it is. -/
@[simp] theorem searchPath_loadRequest (generator : Generator) (files : FileSystem)
    (request : ClassRequest) :
    (generator.loadRequest files request).2.searchPath = generator.searchPath := by
  cases request with
  | named name => rfl
  | file file =>
    rw [loadRequest, loadFile]
    cases files.loadClassFile file <;> rfl

/-- So does loading for all requests. -/
theorem searchPath_loadAll (generator : Generator) (files : FileSystem)
    (requests : List ClassRequest) :
    (generator.loadAll files requests).2.2.searchPath = generator.searchPath := by
  induction requests generalizing generator with
  | nil => rfl
  | cons request requests ih =>
    have hnext := searchPath_loadRequest generator files request
    rcases hload : generator.loadRequest files request with ⟨error | summary, next⟩
    · rw [loadAll_cons_error hload, ih]
    · rw [loadAll_cons_ok hload, ih, ← hnext, hload]

/-- Requests that lead to the same classes are loaded alike. -/
theorem loadAll_congr (hpath : generator.searchPath = path)
    (hnamed : ∀ name, .named name ∈ requests → path.load later name = path.load files name)
    (hfile : ∀ file, .file file ∈ requests → later.read file = files.read file) :
    generator.loadAll later requests = generator.loadAll files requests := by
  induction requests generalizing generator with
  | nil => rfl
  | cons request requests ih =>
    have hrequest : generator.loadRequest later request = generator.loadRequest files request := by
      cases request with
      | named name =>
        simp only [loadRequest, load, hpath, hnamed name List.mem_cons_self]
      | file file =>
        simp only [loadRequest, loadFile, FileSystem.loadClassFile, hfile file List.mem_cons_self]
    have hrest (next : Generator) (hnext : next.searchPath = path) :
        next.loadAll later requests = next.loadAll files requests :=
      ih hnext (fun name hname => hnamed name (List.mem_cons_of_mem _ hname))
        fun file hmem => hfile file (List.mem_cons_of_mem _ hmem)
    rcases hload : generator.loadRequest files request with ⟨error | summary, next⟩
    · rw [loadAll_cons_error hload, loadAll_cons_error (hrequest.trans hload), hrest _ hpath]
    · have hnext : next.searchPath = path := by
        rw [← hpath, ← searchPath_loadRequest generator files request, hload]
      rw [loadAll_cons_ok hload, loadAll_cons_ok (hrequest.trans hload), hrest _ hnext]

/-! ### What is rendered again -/

/-- A run without failures changes only places where headers may stand. -/
theorem changes_writeEach
    (hsuccess : (host.writeEach files directory summaries report).result.failures = [])
    (hafter : (host.writeEach files directory summaries report).files = after)
    (houtputs : ∀ summary ∈ summaries, summary.isEmpty = false →
      MayBeOutput path requests after (headerPath directory summary)) :
    files.ChangesAt (MayStandAt path requests after) after := by
  induction summaries generalizing host files report with
  | nil =>
    cases hafter
    exact .refl _ _
  | cons summary summaries ih =>
    rw [List.forall_mem_cons] at houtputs
    rcases hrender : Header.renderOne (host.hierarchy files) summary host with ⟨_ | text, next⟩
    · rw [writeEach_cons_none hrender] at hsuccess hafter
      exact ih hsuccess hafter houtputs.2
    · have hsome := Header.isEmpty_of_renderOne_some hrender
      rw [writeEach_cons_some hrender] at hsuccess hafter
      have hrest := ih hsuccess hafter houtputs.2
      obtain ⟨outcome, hwrite⟩ := exists_writeIfChanged hsuccess
      exact ((houtputs.1 hsome).changes hwrite hrest.keepsPaths).trans hrest

/-- In a run without failures, every class is rendered as the generator renders it on the files as
they were before. -/
theorem renderOne_of_mem_renderings (hcalm : Calm path files after)
    (hpath : generator.searchPath = path) (hhost : host.LoadsLike middle generator files)
    (hmiddle : files.ChangesAt (MayStandAt path requests after) middle)
    (hsuccess : (host.writeEach middle directory summaries report).result.failures = [])
    (hafter : (host.writeEach middle directory summaries report).files = after)
    (houtputs : ∀ summary ∈ summaries, summary.isEmpty = false →
      MayBeOutput path requests after (headerPath directory summary)) :
    ∀ rendering ∈ host.renderings middle directory summaries,
      (Header.renderOne (generator.hierarchy files) rendering.summary generator).1 =
        some rendering.text := by
  -- By induction on the classes that are left; the generator goes on loading alike.
  induction summaries generalizing host middle report with
  | nil => simp [renderings]
  | cons summary summaries ih =>
    have hbetween : IsBetween path requests files after middle :=
      ⟨hmiddle, (changes_writeEach hsuccess hafter houtputs).keepsPaths⟩
    have htext := hhost.renderOne_eq (.refl generator files) summary
    have hnext := hhost.renderOne summary
    rw [List.forall_mem_cons] at houtputs
    rcases hrender : Header.renderOne (host.hierarchy middle) summary host with ⟨_ | text, next⟩
    · rw [hrender] at hnext
      rw [writeEach_cons_none hrender] at hsuccess hafter
      rw [renderings_cons_none hrender]
      exact ih hnext hmiddle hsuccess hafter houtputs.2
    · rw [hrender] at hnext htext
      rw [writeEach_cons_some hrender] at hsuccess hafter
      rw [renderings_cons_some hrender, List.forall_mem_cons]
      refine ⟨htext.symm, ?_⟩
      have hsome := Header.isEmpty_of_renderOne_some hrender
      have hrest := changes_writeEach hsuccess hafter houtputs.2
      obtain ⟨outcome, hwrite⟩ := exists_writeIfChanged hsuccess
      have hlater := hmiddle.trans ((houtputs.1 hsome).changes hwrite hrest.keepsPaths)
      exact ih (hcalm.loadsLike hbetween ⟨hlater, hrest.keepsPaths⟩ hpath hnext) hlater hsuccess
        hafter houtputs.2

/-! ### What is written again -/

/-- A file that holds the text is left alone. -/
theorem writeIfChanged_of_read (h : files.read output = .ok text.toUTF8) :
    files.writeIfChanged output text = (.ok .unchanged, files) := by
  rw [FileSystem.writeIfChanged, FileSystem.needsWriting, h]
  simp

/-- A run that finds every text in its file changes nothing. -/
theorem writeEach_of_read (hhost : host.LoadsLike after generator files)
    (hread : ∀ summary ∈ summaries, summary.isEmpty = false → ∃ text,
      (Header.renderOne (generator.hierarchy files) summary generator).1 = some text ∧
        after.read (headerPath directory summary) = .ok text.toUTF8) :
    (host.writeEach after directory summaries report).result =
        { report with unchanged := report.unchanged ++
            (summaries.filter (!·.isEmpty)).map (headerPath directory) } ∧
      (host.writeEach after directory summaries report).files = after := by
  induction summaries generalizing host report with
  | nil => simp [writeEach]
  | cons summary summaries ih =>
    rw [List.forall_mem_cons] at hread
    have htext := hhost.renderOne_eq (.refl generator files) summary
    have hnext := hhost.renderOne summary
    rcases hrender : Header.renderOne (host.hierarchy after) summary host with ⟨_ | text, next⟩
    · rw [hrender] at hnext
      have hempty : summary.isEmpty = true := Header.renderOne_eq_none.mp (by rw [hrender])
      rw [writeEach_cons_none hrender, List.filter_cons_of_neg (by simp [hempty])]
      exact ih hnext hread.2
    · have hsome := Header.isEmpty_of_renderOne_some hrender
      obtain ⟨found, hfound, hfile⟩ := hread.1 hsome
      rw [hrender] at hnext htext
      obtain rfl : text = found := Option.some.inj (htext.trans hfound)
      rw [writeEach_cons_some hrender, writeIfChanged_of_read hfile,
        List.filter_cons_of_pos (by simp [hsome])]
      have hrest := @ih next (report.record (headerPath directory summary) .unchanged) hnext hread.2
      simpa [Report.recordHeader, Report.record] using hrest

/-! ### Outputs of a run -/

/-- Wherever the header of a class is written, it takes no place that a search reads, because its
name is neither one of a class file nor one of an archive. -/
theorem mayBeOutput_headerPath (hopened : ∃ earlier, ∀ tree ∈ path.trees, tree.OpenedFrom earlier)
    (summary : ClassSummary)
    (hrequests : ∀ file, .file file ∈ requests →
      ¬after.SameFile (headerPath directory summary) file) :
    MayBeOutput path requests after (headerPath directory summary) where
  notClassFile := by
    intro front name hparts
    obtain ⟨before, hbefore⟩ := (endsIn_headerPath directory summary.name).parts
    rw [headerPath, hbefore] at hparts
    obtain rfl : Header.fileName summary.name = name := by
      simpa using (List.append_inj' hparts rfl).2
    exact Header.not_namesClassFile_fileName summary.name
  notArchive := by
    intro tree htree opened hstorage hresolve
    obtain ⟨earlier, hopened⟩ := hopened
    obtain ⟨directory', heq⟩ :=
      FileSystem.eq_concat_of_resolve (endsIn_headerPath directory summary.name) hresolve
    obtain ⟨directory'', name, hlocation, hname⟩ := (hopened tree htree).location_eq hstorage
    rw [heq] at hlocation
    obtain rfl : Header.fileName summary.name = name := by
      simpa using (List.append_inj' hlocation rfl).2
    exact Header.not_namesArchive_fileName summary.name hname
  notRequested := fun file hfile location hresolve hsame =>
    hrequests file hfile ⟨location, hresolve, hsame⟩

/-- So does one file for all classes, if it is not named like a class file and takes no place of an
archive or of a file that was asked for. -/
theorem mayBeOutput_singleFile (hname : ¬NamesClassFile output.text)
    (harchive : ∀ tree ∈ path.trees, ∀ opened, tree.storage = .archive opened →
      after.resolve output ≠ .ok opened.location)
    (hrequests : ∀ file, .file file ∈ requests → ¬after.SameFile output file) :
    MayBeOutput path requests after output where
  notClassFile := fun _ _ hparts hlast => hname (hlast.trans (Text.suffix_of_pieces hparts))
  notArchive := harchive
  notRequested := fun file hfile location hresolve hsame =>
    hrequests file hfile ⟨location, hresolve, hsame⟩

/-! ### A second run -/

/-- After a run without failures and without clashes between file names, every class finds its own
text in its header file. -/
theorem exists_read_headerPath (hcalm : Calm path files after)
    (hpath : generator.searchPath = path)
    (hsuccess : (generator.writeEach files directory summaries report).result.failures = [])
    (hafter : (generator.writeEach files directory summaries report).files = after)
    (houtputs : ∀ summary ∈ summaries, summary.isEmpty = false →
      MayBeOutput path requests after (headerPath directory summary))
    (hsuits : (OutputTarget.perClass directory).Suits path after summaries) {summary : ClassSummary}
    (hmem : summary ∈ summaries) (hsome : summary.isEmpty = false) :
    ∃ text, (Header.renderOne (generator.hierarchy files) summary generator).1 = some text ∧
      after.read (headerPath directory summary) = .ok text.toUTF8 := by
  have hnone : HoldsLast files directory [] := fun name text h => nomatch h
  have hholds := hnone.run hsuccess
  rw [hafter, List.nil_append] at hholds
  have hrenderings := renderOne_of_mem_renderings hcalm hpath (.refl generator files)
    (.refl _ files) hsuccess hafter houtputs
  have hsummaries := map_summary_renderings generator files directory summaries
  have hrendered : ∀ rendering ∈ generator.renderings files directory summaries,
      rendering.summary ∈ summaries ∧ rendering.summary.isEmpty = false := by
    intro rendering hrendering
    have hfilter : rendering.summary ∈ summaries.filter (!·.isEmpty) :=
      hsummaries ▸ List.mem_map_of_mem hrendering
    simpa using hfilter
  obtain ⟨rendering, hrendering, rfl⟩ :
      ∃ rendering ∈ generator.renderings files directory summaries,
        rendering.summary = summary := by
    rw [← List.mem_map, hsummaries]
    simp [hmem, hsome]
  -- The last class with this header file is the class itself.
  obtain ⟨text, hlast⟩ := exists_lastText? hrendering
  obtain ⟨last, hlastmem, hname, rfl⟩ := mem_of_lastText? hlast
  obtain ⟨hlastsummary, hlastsome⟩ := hrendered last hlastmem
  have hsame : last.summary = rendering.summary :=
    hsuits last.summary hlastsummary rendering.summary hmem hlastsome hsome hname
  refine ⟨last.text, ?_, hholds rendering.fileName last.text hlast⟩
  rw [← hsame]
  exact hrenderings last hlastmem

/-- A generator that loads alike finds one header for all classes as it was written. -/
theorem writeSingle_again (hlike : generator.LoadsLike after generator files) {result : Report}
    (hresult : (generator.writeSingle files output summaries report).result = .ok result)
    (hafter : (generator.writeSingle files output summaries report).files = after) :
    (generator.writeSingle after output summaries report).result =
        .ok { report with unchanged := report.unchanged ++
          (OutputTarget.singleFile output).outputs summaries } ∧
      (generator.writeSingle after output summaries report).files = after := by
  have htext := hlike.renderMany_eq (.refl generator files) summaries
  obtain ⟨hall, -, -⟩ | ⟨hsome, text, outcome, hfirst, -, hwrite⟩ := writeSingle_eq_ok hresult
  · have hnone := (@Header.renderMany_eq_none _ (generator.hierarchy after) generator _).mpr hall
    rw [writeSingle_none (Prod.ext hnone rfl)]
    simp [OutputTarget.outputs, hall]
  · rw [hafter] at hwrite
    rw [writeSingle_some (Prod.ext (htext.trans hfirst) rfl),
      writeIfChanged_of_read (FileSystem.read_of_writeIfChanged hwrite)]
    simp [Except.map, Report.record, OutputTarget.outputs, hsome]

/-- One header for all classes changes only a place where it may stand. -/
theorem changes_writeSingle {result : Report}
    (hresult : (generator.writeSingle files output summaries report).result = .ok result)
    (hafter : (generator.writeSingle files output summaries report).files = after)
    (houtput : ¬summaries.all (·.isEmpty) = true → MayBeOutput path requests after output) :
    files.ChangesAt (MayStandAt path requests after) after := by
  obtain ⟨-, -, hfiles⟩ | ⟨hsome, text, outcome, -, -, hwrite⟩ := writeSingle_eq_ok hresult
  · rw [← hafter, hfiles]
    exact .refl _ _
  · rw [hafter] at hwrite
    exact (houtput hsome).changes hwrite (.refl after)

/-- What writing headers leaves behind, and what writing them again does: only places where headers
may stand have changed, and a second time nothing changes and every output is reported as unchanged.
-/
structure IsRepeatable (generator : Generator) (path : SearchPath) (requests : List ClassRequest)
    (files after : FileSystem) (summaries : List ClassSummary) (report : Report)
    (target : OutputTarget) : Prop where
  /-- Only headers were written. -/
  changes : files.ChangesAt (MayStandAt path requests after) after
  /-- Everything was reported as unchanged. -/
  result : (generator.writeTo after summaries report target).result =
    .ok { report with unchanged := report.unchanged ++ target.outputs summaries }
  /-- The files stay. -/
  files : (generator.writeTo after summaries report target).files = after

/-- Writing headers without failures can be repeated. -/
theorem isRepeatable_of_writeTo {target : OutputTarget} {result : Report}
    (hcalm : Calm path files after) (hpath : generator.searchPath = path)
    (hresult : (generator.writeTo files summaries report target).result = .ok result)
    (hsuccess : result.failures = [])
    (hafter : (generator.writeTo files summaries report target).files = after)
    (hrequests : ∀ output ∈ target.outputs summaries, ∀ file, .file file ∈ requests →
      ¬after.SameFile output file)
    (hsuits : target.Suits path after summaries) :
    generator.IsRepeatable path requests files after summaries report target := by
  have hlike (hchanges : files.ChangesAt (MayStandAt path requests after) after) :
      generator.LoadsLike after generator files :=
    hcalm.loadsLike ⟨.refl _ _, hchanges.keepsPaths⟩ ⟨hchanges, .refl after⟩ hpath
      (.refl generator files)
  cases target with
  | singleFile output =>
    have hchanges : files.ChangesAt (MayStandAt path requests after) after := by
      refine changes_writeSingle hresult hafter fun hsome => ?_
      exact mayBeOutput_singleFile hsuits.1 hsuits.2
        (hrequests output (by simp [OutputTarget.outputs, hsome]))
    obtain ⟨hagain, hfiles⟩ := writeSingle_again (hlike hchanges) hresult hafter
    exact ⟨hchanges, hagain, hfiles⟩
  | perClass directory =>
    cases hresult
    have houtputs : ∀ summary ∈ summaries, summary.isEmpty = false →
        MayBeOutput path requests after (headerPath directory summary) := by
      intro summary hmem hsome
      refine mayBeOutput_headerPath hcalm.opened summary (hrequests _ ?_)
      exact List.mem_map_of_mem (List.mem_filter.mpr ⟨hmem, by simp [hsome]⟩)
    have hchanges := changes_writeEach hsuccess hafter houtputs
    obtain ⟨hagain, hfiles⟩ := writeEach_of_read (hlike hchanges) fun _ hmem hsome =>
      exists_read_headerPath hcalm hpath hsuccess hafter houtputs hsuits hmem hsome
    exact ⟨hchanges, congrArg Except.ok hagain, hfiles⟩

/-- Writing headers adds to the failures and leaves the skipped classes. -/
theorem report_of_writeTo {target : OutputTarget} {result : Report}
    (hresult : (generator.writeTo files summaries report target).result = .ok result)
    (hsuccess : result.failures = []) :
    result.skipped = report.skipped ∧ report.failures = [] := by
  cases target with
  | singleFile output =>
    obtain ⟨hskipped, hfailures, -⟩ := outcomes_writeSingle hresult
    exact ⟨hskipped, hfailures.symm.trans hsuccess⟩
  | perClass directory =>
    cases hresult
    obtain ⟨others, hothers⟩ := failures_writeEach generator files directory summaries report
    rw [hsuccess] at hothers
    exact ⟨(outcomes_writeEach generator files directory summaries report).2,
      (List.append_eq_nil_iff.mp hothers.symm).1⟩

/-- In a calm second run the same classes are loaded. -/
theorem loadAll_again (hcalm : Calm path files after)
    (hbetween : IsBetween path requests files after after)
    (hnames : ∀ name, .named name ∈ requests → ClassName.isInternal name.internal = true)
    (hloaded : (ofSearchPath path).loadFailures files requests = []) :
    (ofSearchPath path).loadAll after requests = (ofSearchPath path).loadAll files requests := by
  refine loadAll_congr rfl (fun name hname => hcalm.load_eq hbetween (hnames name hname)) ?_
  intro file hfile
  obtain ⟨content, hread⟩ := exists_read_of_loadFailures hloaded hfile
  rw [hread]
  exact hbetween.read_eq hfile hread

/-- A run that loads the same classes writes their headers on the files that there are. -/
theorem generate_of_loadAll
    (hload : generator.loadAll after requests = generator.loadAll files requests)
    (target : OutputTarget) :
    generator.generate after requests target =
      (generator.loadAll files requests).2.2.writeTo after (generator.loadedClasses files requests)
        (generator.openingReport files requests) target := by
  have hclasses : generator.loadedClasses after requests =
      generator.loadedClasses files requests := by
    rw [loadedClasses, hload, loadedClasses]
  have hopening : generator.openingReport after requests =
      generator.openingReport files requests := by
    rw [openingReport, openingReport, skippedNames, skippedNames, hclasses, ← failures_loadAll,
      hload, failures_loadAll]
  rw [generate_eq, hload, hclasses, hopening]

/-- **Generating again changes nothing.** A run without failures is followed by one on the files
that it left. The search path may have been opened at any time, but none of its directories came
into being during the first run; no header took the place of a file that was asked for, of another
header, of a class file or of an opened archive. Then the second run leaves the files as they are,
and reports the header of each class as unchanged, the same classes as skipped, and no failure. -/
theorem generate_again {earlier : FileSystem} {environment : Environment}
    {entries : List SearchPath.Entry} {target : OutputTarget}
    (hopened : SearchPath.ofEntries earlier environment entries = .ok path)
    (htree : files.IsTree)
    (hnames : ∀ name, .named name ∈ requests →
      ∃ text, ClassName.parse text = .ok name ∨ ClassName.ofInternal text = .ok name)
    (hresult : ((ofSearchPath path).generate files requests target).result = .ok report)
    (hsuccess : report.isSuccess = true)
    (hafter : ((ofSearchPath path).generate files requests target).files = after)
    (hdirectories : ∀ tree ∈ path.trees, tree.storage = .directory →
      after.isDirectory tree.path = true → files.isDirectory tree.path = true)
    (hrequests : ∀ output ∈ target.outputs ((ofSearchPath path).loadedClasses files requests),
      ∀ file, .file file ∈ requests → ¬after.SameFile output file)
    (hsuits : target.Suits path after ((ofSearchPath path).loadedClasses files requests)) :
    ((ofSearchPath path).generate after requests target).result =
        .ok {
          written := []
          unchanged := target.outputs ((ofSearchPath path).loadedClasses files requests)
          skipped := report.skipped
          failures := [] } ∧
      ((ofSearchPath path).generate after requests target).files = after := by
  have hcalm : Calm path files after :=
    ⟨htree, ⟨earlier, SearchPath.openedFrom_of_ofEntries hopened⟩, hdirectories⟩
  have hlegal : ∀ name, .named name ∈ requests → ClassName.isInternal name.internal = true :=
    fun name hname => ClassName.isInternal_of_read (hnames name hname)
  have hfailures : report.failures = [] := List.isEmpty_iff.mp hsuccess
  rw [generate_eq] at hresult hafter
  obtain ⟨hskipped, hloaded⟩ := report_of_writeTo hresult hfailures
  obtain ⟨hchanges, hagain, hfiles⟩ := isRepeatable_of_writeTo hcalm (searchPath_loadAll ..) hresult
    hfailures hafter hrequests hsuits
  rw [generate_of_loadAll (loadAll_again hcalm ⟨hchanges, .refl after⟩ hlegal hloaded)]
  refine ⟨hagain.trans ?_, hfiles⟩
  have hnone : (ofSearchPath path).loadFailures files requests = [] := hloaded
  simp [openingReport, hnone, hskipped]

/-- A class with a native method that takes a throwable object and another one, and a class in a
package, next to the classes of the parameters. -/
def callerClasses : FileSystem where
  nodes := linkedClasses.nodes ++
    [(["cp", "A.class"], .file ⟨(Header.nativeFile "(LE;LL;)V").encode.toArray⟩ false),
      (["cp", "a"], .directory),
      (["cp", "a", "B.class"], .file ⟨(constantClassFile "a/B").encode.toArray⟩ false)]
  workingDirectory := []

/-- A request for the first class by its name, and one for the second by its file. -/
def callerRequests : List ClassRequest :=
  [.named { internal := "A" }, .file ⟨"cp/a/B.class"⟩]

/-- The run for two classes writes their headers, one of which depends on what is throwable, and the
run after it leaves both alone. -/
theorem generate_again_twoClasses :
    SearchPath.ofEntries callerClasses [] [.classes ⟨"cp"⟩] = .ok linkedPath ∧
      (NativeType.ofParameters ((ofSearchPath linkedPath).hierarchy callerClasses)
        [.object "E", .object "L"] (ofSearchPath linkedPath)).1 = [.throwable, .object] ∧
      ((ofSearchPath linkedPath).generate callerClasses callerRequests (.perClass ⟨"out"⟩)).result =
        .ok { written := [⟨"out/A.h"⟩, ⟨"out/a_B.h"⟩] } ∧
      ∃ after,
        ((ofSearchPath linkedPath).generate callerClasses callerRequests
          (.perClass ⟨"out"⟩)).files = after ∧
        ((ofSearchPath linkedPath).generate after callerRequests (.perClass ⟨"out"⟩)).result =
          .ok { unchanged := [⟨"out/A.h"⟩, ⟨"out/a_B.h"⟩] } ∧
        ((ofSearchPath linkedPath).generate after callerRequests (.perClass ⟨"out"⟩)).files =
          after := by
  have hopened : SearchPath.ofEntries callerClasses [] [.classes ⟨"cp"⟩] = .ok linkedPath := rfl
  have hresult : ((ofSearchPath linkedPath).generate callerClasses callerRequests
      (.perClass ⟨"out"⟩)).result = .ok { written := [⟨"out/A.h"⟩, ⟨"out/a_B.h"⟩] } := by
    decide +kernel
  have hnames : ∀ name, ClassRequest.named name ∈ callerRequests →
      ∃ text, ClassName.parse text = .ok name ∨ ClassName.ofInternal text = .ok name := by
    intro name hname
    obtain rfl : name = { internal := "A" } := by simpa [callerRequests] using hname
    exact ⟨"A", .inr rfl⟩
  have houtputs : (OutputTarget.perClass ⟨"out"⟩).outputs
      ((ofSearchPath linkedPath).loadedClasses callerClasses callerRequests) =
        [⟨"out/A.h"⟩, ⟨"out/a_B.h"⟩] := by
    decide +kernel
  have hapart : ∀ output ∈ [(⟨"out/A.h"⟩ : Path), ⟨"out/a_B.h"⟩],
      (((ofSearchPath linkedPath).generate callerClasses callerRequests
          (.perClass ⟨"out"⟩)).files.resolve output).toOption ≠
        (((ofSearchPath linkedPath).generate callerClasses callerRequests
          (.perClass ⟨"out"⟩)).files.resolve ⟨"cp/a/B.class"⟩).toOption := by
    decide +kernel
  have hagain := generate_again hopened (FileSystem.isTree_of_forall (by decide +kernel)) hnames
    hresult rfl rfl
    (fun tree htree hstorage _ =>
      SearchPath.isDirectory_of_ofEntries hopened tree htree hstorage)
    ?_ (by unfold OutputTarget.Suits; decide +kernel)
  · rw [houtputs] at hagain
    exact ⟨hopened, by decide +kernel, hresult, _, rfl, hagain⟩
  · rintro output houtput file hfile ⟨location, hfirst, hsecond⟩
    obtain rfl : file = ⟨"cp/a/B.class"⟩ := by simpa [callerRequests] using hfile
    rw [houtputs] at houtput
    exact hapart output houtput (congrArg Except.toOption (hfirst.trans hsecond.symm))

/-! ### A directory that comes into being

The search path looks into `out/../cp1` first, which leads nowhere while `out` is missing. A run
with headers in `out` makes this directory, so that the next run finds another class of the same
name. -/

/-- Two classes of one name, whose constants have different values, and the directory for headers.
-/
def beforeRemoval : FileSystem where
  nodes := [(["out"], .directory), (["cp1"], .directory),
    (["cp1", "A.class"], .file ⟨(constantClassFile "A").encode.toArray⟩ false),
    (["cp2"], .directory), (["cp2", "A.class"], .file ⟨{ constantClassFile "A" with
      entries := (constantClassFile "A").entries.set 5 (.integer 2) }.encode.toArray⟩ false)]
  workingDirectory := []

/-- The files without the directory for headers. -/
def afterRemoval : FileSystem := { beforeRemoval with nodes := beforeRemoval.nodes.tail }

/-- The search path that was opened before. -/
def detourPath : SearchPath where
  roots := [.classes { path := ⟨"out/../cp1"⟩, storage := .directory, releases := [] },
    .classes { path := ⟨"cp2"⟩, storage := .directory, releases := [] }]

/-- A second run on the same search path writes the header again. -/
theorem exists_generate_again_written :
    SearchPath.ofEntries beforeRemoval [] [.classes ⟨"out/../cp1"⟩, .classes ⟨"cp2"⟩] =
        .ok detourPath ∧
      beforeRemoval.remove ⟨"out"⟩ = .ok afterRemoval ∧
      afterRemoval.IsTree ∧
      ClassName.parse "A" = .ok { internal := "A" } ∧
      ∃ after, ((ofSearchPath detourPath).generate afterRemoval [.named { internal := "A" }]
          (.perClass ⟨"out"⟩)).files = after ∧
        ((ofSearchPath detourPath).generate afterRemoval [.named { internal := "A" }]
          (.perClass ⟨"out"⟩)).result = .ok { written := [⟨"out/A.h"⟩] } ∧
        (OutputTarget.perClass ⟨"out"⟩).Suits detourPath after
          ((ofSearchPath detourPath).loadedClasses afterRemoval [.named { internal := "A" }]) ∧
        ((ofSearchPath detourPath).generate after [.named { internal := "A" }]
          (.perClass ⟨"out"⟩)).result = .ok { written := [⟨"out/A.h"⟩] } ∧
        ((ofSearchPath detourPath).generate after [.named { internal := "A" }]
          (.perClass ⟨"out"⟩)).files ≠ after := by
  refine ⟨rfl, by decide +kernel, FileSystem.isTree_of_forall (by decide +kernel),
    by decide +kernel, _, rfl, by decide +kernel, by unfold OutputTarget.Suits; decide +kernel,
    by decide +kernel, by decide +kernel⟩

end Generator

end NativeHeaders
