import Mathlib.Data.List.Nodup
import NativeHeaders.Generator
import NativeHeaders.Proofs.ClassFile.Format
import NativeHeaders.Proofs.FileSystem.Writing

/-! # Headers of a run with one file for each class

Which text the header files hold after a run that writes one for each class. The name of a header
file does not tell slashes, dollar signs and underscores apart, so that classes may share one, and
then the last of them decides. `HoldsLast` is what each turn of the loop preserves, and
`read_headerPath_iff` says under which condition every class finds its own text. -/

namespace NativeHeaders

/-! ### Names of header files -/

namespace Header

/-- The name of a header file has no slash. -/
theorem slash_notMem_fileName (className : String) : '/' ∉ (fileName className).toList := by
  rw [fileName, String.toList_append, String.toList_ofList, List.mem_append, List.mem_map]
  rintro (⟨c, -, hc⟩ | hc)
  · split at hc
    · cases hc
    · next hkept =>
      subst hc
      simp at hkept
  · revert hc
    decide

/-- The name of a header file ends in `h`. -/
theorem getLast?_fileName (className : String) : (fileName className).toList.getLast? = some 'h' := by
  rw [fileName, String.toList_append]
  show (_ ++ ['.', 'h']).getLast? = some 'h'
  simp

/-- The name of a header file leads to an entry of a directory. -/
theorem isEntryName_fileName (className : String) : Path.IsEntryName (fileName className) := by
  -- The name ends in a letter, and the parts that lead nowhere or up do not.
  have hlast := getLast?_fileName className
  have hne : ∀ part : String, part.toList.getLast? ≠ some 'h' → fileName className ≠ part := by
    rintro _ hpart rfl
    exact hpart hlast
  constructor
  · simp [Path.isIdle, hne "" (by decide), hne "." (by decide)]
  · exact hne ".." (by decide)

end Header

/-! ### One output file -/

namespace FileSystem

variable {files later : FileSystem} {path : Path} {text : String} {outcome : WriteOutcome}

/-- Making the directory for a file changes no file. -/
theorem prepareParent_changes (files : FileSystem) (path : Path) :
    ChangesAt (fun _ => False) files (files.prepareParent path).2 := by
  unfold prepareParent
  split
  · exact .refl _ files
  · split
    · exact .refl _ files
    · exact createChain_changes files _

/-- What making a file hold a text can do: nothing, because the file cannot be read or has the text;
or it makes directories, and then it fails or writes the text. -/
theorem writeIfChanged_cases {result : Except GenerationError WriteOutcome}
    (h : files.writeIfChanged path text = (result, later)) :
    later = files ∧ ((∃ error, result = .error error) ∨
        result = .ok .unchanged ∧ files.read path = .ok text.toUTF8) ∨
      later = (files.prepareParent path).2 ∧ (∃ error, result = .error error) ∨
      result = .ok .written ∧ (files.prepareParent path).2.write path text.toUTF8 = .ok later := by
  unfold writeIfChanged at h
  split at h
  · cases h
    exact .inl ⟨rfl, .inl ⟨_, rfl⟩⟩
  · next hneeds =>
    -- Nothing is written, because the file was read and held the text.
    cases h
    unfold needsWriting at hneeds
    split at hneeds
    · next content hread =>
      have hsame : content = text.toUTF8 := by simpa using hneeds
      exact .inl ⟨rfl, .inr ⟨rfl, hsame ▸ hread⟩⟩
    · cases hneeds
    · cases hneeds
  · split at h
    · next heq =>
      cases h
      rw [heq]
      exact .inr (.inl ⟨rfl, _, rfl⟩)
    · next heq =>
      rw [heq]
      split at h
      · cases h
        exact .inr (.inl ⟨rfl, _, rfl⟩)
      · next hwrite =>
        cases h
        exact .inr (.inr ⟨rfl, hwrite⟩)

/-- Making a file hold a text leaves all as it is, or makes directories and writes the text. -/
theorem writeIfChanged_eq_ok (h : files.writeIfChanged path text = (.ok outcome, later)) :
    (files.read path = .ok text.toUTF8 ∧ later = files) ∨
      ∃ middle, ChangesAt (fun _ => False) files middle ∧
        middle.write path text.toUTF8 = .ok later := by
  obtain ⟨hlater, ⟨_, ⟨⟩⟩ | ⟨-, hread⟩⟩ | ⟨-, _, ⟨⟩⟩ | ⟨-, hwrite⟩ := writeIfChanged_cases h
  · exact .inl ⟨hread, hlater⟩
  · exact .inr ⟨_, prepareParent_changes files path, hwrite⟩

/-- A file holds the text that it was made to hold. -/
theorem read_of_writeIfChanged (h : files.writeIfChanged path text = (.ok outcome, later)) :
    later.read path = .ok text.toUTF8 := by
  obtain ⟨hread, rfl⟩ | ⟨middle, -, hwrite⟩ := writeIfChanged_eq_ok h
  · exact hread
  · exact read_of_write hwrite

/-- A file with another name holds what it held. -/
theorem read_of_writeIfChanged_of_ne {other : Path} {content : ByteArray} {name name' : String}
    (h : files.writeIfChanged path text = (.ok outcome, later))
    (hread : files.read other = .ok content) (hpath : path.EndsIn name)
    (hother : other.EndsIn name') (hne : name' ≠ name) :
    later.read other = .ok content := by
  obtain ⟨-, rfl⟩ | ⟨middle, hparent, hwrite⟩ := writeIfChanged_eq_ok h
  · exact hread
  · exact read_of_write_of_ne hwrite (hparent.grows.read hread) hpath hother hne

end FileSystem

/-! ### The loop -/

namespace Generator

/-- What is rendered for a class. -/
structure Rendering where
  /-- The class. -/
  summary : ClassSummary
  /-- The text of its header. -/
  text : String
deriving DecidableEq, Repr

/-- The name of the header file. -/
def Rendering.fileName (rendering : Rendering) : String := Header.fileName rendering.summary.name

/-- What is rendered when a header is written for each class, in order. -/
def renderings (generator : Generator) (files : FileSystem) (directory : Path) :
    List ClassSummary → List Rendering
  | [] => []
  | summary :: summaries =>
    match Header.renderOne (generator.hierarchy files) summary generator with
    | (none, generator) => renderings generator files directory summaries
    | (some text, generator) =>
      { summary, text } ::
        renderings generator (files.writeIfChanged (headerPath directory summary) text).2 directory
          summaries

/-- Exactly the classes that declare something are rendered. -/
theorem map_summary_renderings (generator : Generator) (files : FileSystem) (directory : Path)
    (summaries : List ClassSummary) :
    (renderings generator files directory summaries).map Rendering.summary =
      summaries.filter (!·.isEmpty) := by
  induction summaries generalizing generator files with
  | nil => rfl
  | cons summary summaries ih =>
    rw [renderings, Header.renderOne]
    cases hempty : summary.isEmpty with
    | true => simpa [hempty] using ih generator files
    | false => simp [hempty, ih]

/-- The text rendered last for a header file. -/
def lastText? (done : List Rendering) (name : String) : Option String :=
  (done.reverse.find? fun rendering => rendering.fileName = name).map Rendering.text

/-- The last rendering is the last one for its own file name, and for no other. -/
theorem lastText?_concat (done : List Rendering) (rendering : Rendering) (name : String) :
    lastText? (done ++ [rendering]) name =
      if rendering.fileName = name then some rendering.text else lastText? done name := by
  rw [lastText?, List.reverse_append, List.reverse_singleton, List.singleton_append,
    List.find?_cons]
  by_cases h : rendering.fileName = name <;> simp [h, lastText?]

/-- The last text for a file name comes from a rendering. -/
theorem mem_of_lastText? {done : List Rendering} {name text : String}
    (h : lastText? done name = some text) :
    ∃ rendering ∈ done, rendering.fileName = name ∧ rendering.text = text := by
  obtain ⟨rendering, hfind, htext⟩ := Option.map_eq_some_iff.mp h
  have hmem : rendering ∈ done := by simpa using List.mem_of_find?_eq_some hfind
  have hname : rendering.fileName = name := by simpa using List.find?_some hfind
  exact ⟨rendering, hmem, hname, htext⟩

/-- Every file name of a rendering has a last text. -/
theorem exists_lastText? {done : List Rendering} {rendering : Rendering} (h : rendering ∈ done) :
    ∃ text, lastText? done rendering.fileName = some text := by
  rw [← Option.isSome_iff_exists, lastText?, Option.isSome_map, List.find?_isSome]
  exact ⟨rendering, by simpa using h, by simp⟩

/-- Every header file holds the text that was rendered for it last. -/
def HoldsLast (files : FileSystem) (directory : Path) (done : List Rendering) : Prop :=
  ∀ name text, lastText? done name = some text →
    files.read (directory.join name) = .ok text.toUTF8

/-- The path of a header ends in its file name. -/
theorem endsIn_headerPath (directory : Path) (className : String) :
    (directory.join (Header.fileName className)).EndsIn (Header.fileName className) :=
  Path.endsIn_join directory (Header.isEntryName_fileName className)
    (Header.slash_notMem_fileName className)

variable {files later : FileSystem} {directory : Path} {done : List Rendering}

/-- One more header is written over the one with the same file name, and over no other one. -/
theorem HoldsLast.concat {summary : ClassSummary} {text : String} {outcome : WriteOutcome}
    (h : HoldsLast files directory done)
    (hwrite : files.writeIfChanged (headerPath directory summary) text = (.ok outcome, later)) :
    HoldsLast later directory (done ++ [⟨summary, text⟩]) := by
  intro name found hfound
  rw [lastText?_concat] at hfound
  split at hfound
  · next hname =>
    cases hfound
    rw [← hname]
    exact FileSystem.read_of_writeIfChanged hwrite
  · next hname =>
    -- Another name is the name of an earlier header, which was there before.
    obtain ⟨earlier, -, rfl, -⟩ := mem_of_lastText? hfound
    have hother := endsIn_headerPath directory earlier.summary.name
    exact FileSystem.read_of_writeIfChanged_of_ne hwrite (h _ found hfound)
      (endsIn_headerPath directory summary.name) hother (Ne.symm hname)

/-! #### One turn -/

section Turn

variable {generator after : Generator} {summary : ClassSummary} {summaries : List ClassSummary}
  {report : Report} {text : String}

/-- One step of `writeEach` when nothing is rendered. -/
theorem writeEach_cons_none
    (hrender : Header.renderOne (generator.hierarchy files) summary generator = (none, after)) :
    generator.writeEach files directory (summary :: summaries) report =
      after.writeEach files directory summaries report := by
  rw [writeEach, hrender]

/-- One step of `writeEach` when a text is rendered: it is written, and the outcome is entered. -/
theorem writeEach_cons_some
    (hrender :
      Header.renderOne (generator.hierarchy files) summary generator = (some text, after)) :
    generator.writeEach files directory (summary :: summaries) report =
      after.writeEach (files.writeIfChanged (headerPath directory summary) text).2 directory
        summaries (report.recordHeader (headerPath directory summary)
          (Text.substituted '/' '.' summary.name)
          (files.writeIfChanged (headerPath directory summary) text).1) := by
  rw [writeEach, hrender]

/-- A class that declares nothing is not among the renderings. -/
theorem renderings_cons_none
    (hrender : Header.renderOne (generator.hierarchy files) summary generator = (none, after)) :
    generator.renderings files directory (summary :: summaries) =
      after.renderings files directory summaries := by
  rw [renderings, hrender]

/-- A class that declares something is the first of the renderings. -/
theorem renderings_cons_some
    (hrender :
      Header.renderOne (generator.hierarchy files) summary generator = (some text, after)) :
    generator.renderings files directory (summary :: summaries) =
      { summary, text } ::
        after.renderings (files.writeIfChanged (headerPath directory summary) text).2 directory
          summaries := by
  rw [renderings, hrender]

end Turn

/-! #### All turns -/

/-- A header that was not written is entered behind the failures. -/
theorem failures_recordHeader (report : Report) (path : Path) (className : String)
    (result : Except GenerationError WriteOutcome) :
    (report.recordHeader path className result).failures =
      report.failures ++ match result with
        | .ok _ => []
        | .error error => [{ className, error }] := by
  cases result with
  | ok outcome => cases outcome <;> simp [Report.recordHeader, Report.record]
  | error error => rfl

/-- The failures in a report stay there. -/
theorem failures_writeEach (generator : Generator) (files : FileSystem) (directory : Path)
    (summaries : List ClassSummary) (report : Report) :
    ∃ others, (generator.writeEach files directory summaries report).result.failures =
      report.failures ++ others := by
  induction summaries generalizing generator files report with
  | nil => exact ⟨[], (List.append_nil _).symm⟩
  | cons summary summaries ih =>
    rcases hrender : Header.renderOne (generator.hierarchy files) summary generator with
      ⟨_ | text, after⟩
    · rw [writeEach_cons_none hrender]
      exact ih after files report
    · rw [writeEach_cons_some hrender]
      obtain ⟨others, hothers⟩ := ih after _ _
      rw [hothers, failures_recordHeader, List.append_assoc]
      exact ⟨_, rfl⟩

/-- In a run without failures, the first header is written. -/
theorem exists_writeIfChanged {summaries : List ClassSummary} {report : Report} {path : Path}
    {text className : String} {next : Generator}
    (h : (next.writeEach (files.writeIfChanged path text).2 directory summaries
      (report.recordHeader path className (files.writeIfChanged path text).1)).result.failures =
        []) :
    ∃ outcome, files.writeIfChanged path text =
      (.ok outcome, (files.writeIfChanged path text).2) := by
  rcases hwrite : files.writeIfChanged path text with ⟨error | outcome, later⟩
  · -- A failure would be in the report at the end.
    rw [hwrite] at h
    obtain ⟨others, hothers⟩ := failures_writeEach next later directory summaries
      (report.recordHeader path className (.error error))
    rw [h, failures_recordHeader] at hothers
    simp at hothers
  · exact ⟨outcome, rfl⟩

/-- A loop without failures preserves that every header file holds the text that was rendered for it
last. -/
theorem HoldsLast.run {generator : Generator} {summaries : List ClassSummary} {report : Report}
    (h : HoldsLast files directory done)
    (hsuccess : (generator.writeEach files directory summaries report).result.failures = []) :
    HoldsLast (generator.writeEach files directory summaries report).files directory
      (done ++ generator.renderings files directory summaries) := by
  -- By induction on the classes that are left, behind any that were rendered.
  induction summaries generalizing generator files report done with
  | nil =>
    rw [renderings, List.append_nil]
    exact h
  | cons summary summaries ih =>
    rcases hrender : Header.renderOne (generator.hierarchy files) summary generator with
      ⟨_ | text, after⟩
    · rw [writeEach_cons_none hrender] at hsuccess ⊢
      rw [renderings_cons_none hrender]
      exact ih h hsuccess
    · rw [writeEach_cons_some hrender] at hsuccess ⊢
      rw [renderings_cons_some hrender, List.append_cons]
      obtain ⟨outcome, hwrite⟩ := exists_writeIfChanged hsuccess
      exact ih (h.concat hwrite) hsuccess

/-! ### A run -/

/-- The classes that the requests load. -/
def loadedClasses (generator : Generator) (files : FileSystem) (requests : List ClassRequest) :
    List ClassSummary := (generator.loadAll files requests).1

/-- What is rendered when the requests are served with a header for each class. -/
def rendered (generator : Generator) (files : FileSystem) (requests : List ClassRequest)
    (directory : Path) : List Rendering :=
  (generator.loadAll files requests).2.2.renderings files directory
    (generator.loadedClasses files requests)

/-- The files after the requests were served with a header for each class. -/
def filesAfter (generator : Generator) (files : FileSystem) (requests : List ClassRequest)
    (directory : Path) : FileSystem :=
  (generator.generate files requests (.perClass directory)).files

/-- After a run without failures every header file holds the text that was rendered for it last. -/
theorem holdsLast_filesAfter {generator : Generator} {requests : List ClassRequest}
    {report : Report}
    (hreport : (generator.generate files requests (.perClass directory)).result = .ok report)
    (hsuccess : report.isSuccess = true) :
    HoldsLast (generator.filesAfter files requests directory) directory
      (generator.rendered files requests directory) := by
  have hnone : HoldsLast files directory [] := fun name text h => nomatch h
  cases hreport
  exact hnone.run (List.isEmpty_iff.mp hsuccess)

/-- No header is lost if the names of the header files are distinct. -/
theorem read_headerPath_of_nodup {generator : Generator} {requests : List ClassRequest}
    {report : Report}
    (hreport : (generator.generate files requests (.perClass directory)).result = .ok report)
    (hsuccess : report.isSuccess = true)
    (hnodup : ((generator.rendered files requests directory).map Rendering.fileName).Nodup)
    {rendering : Rendering} (h : rendering ∈ generator.rendered files requests directory) :
    (generator.filesAfter files requests directory).read (headerPath directory rendering.summary) =
      .ok rendering.text.toUTF8 := by
  obtain ⟨text, hlast⟩ := exists_lastText? h
  obtain ⟨last, hmem, hname, rfl⟩ := mem_of_lastText? hlast
  obtain rfl : last = rendering := List.inj_on_of_nodup_map hnodup hmem h hname
  exact holdsLast_filesAfter hreport hsuccess _ _ hlast

/-- **When a run loses no header.** After a run without failures that writes a header for each
class, exactly the classes that were loaded and declare something were rendered, and each of them
finds its own text in its header file if and only if classes with the same header file were rendered
to the same text. -/
theorem read_headerPath_iff (generator : Generator) (files : FileSystem)
    (requests : List ClassRequest) (directory : Path) (report : Report)
    (hreport : (generator.generate files requests (.perClass directory)).result = .ok report)
    (hsuccess : report.isSuccess = true) :
    (generator.rendered files requests directory).map Rendering.summary =
        (generator.loadedClasses files requests).filter (!·.isEmpty) ∧
      ((∀ rendering ∈ generator.rendered files requests directory,
          (generator.filesAfter files requests directory).read
              (headerPath directory rendering.summary) = .ok rendering.text.toUTF8) ↔
        ∀ first ∈ generator.rendered files requests directory,
          ∀ second ∈ generator.rendered files requests directory,
            first.fileName = second.fileName → first.text = second.text) := by
  refine ⟨map_summary_renderings .., ?_, ?_⟩
  · intro hown first hfirst second hsecond hname
    have hpath : headerPath directory first.summary = headerPath directory second.summary := by
      rw [headerPath, headerPath]
      exact congrArg directory.join hname
    -- One file holds both texts.
    have hread := hown first hfirst
    rw [hpath, hown second hsecond] at hread
    apply String.toByteArray_inj.mp
    simpa using hread.symm
  · intro hsame rendering hrendering
    obtain ⟨text, hlast⟩ := exists_lastText? hrendering
    obtain ⟨last, hmem, hname, rfl⟩ := mem_of_lastText? hlast
    -- The file holds the text that was rendered for it last, which is the same one.
    rw [hsame rendering hrendering last hmem hname.symm]
    exact holdsLast_filesAfter hreport hsuccess rendering.fileName last.text hlast

/-! ### Two classes with one header file

The classes `a.B` and `a_B` both have the header file `a_B.h`. -/

/-- A class with one constant. -/
def constantClassFile (name : String) : ClassFile.Format.File where
  minor := 0
  major := 52
  poolCount := 7
  entries := [.utf8 name.toUTF8.data.toList, .classRef 1, .utf8 "T".toUTF8.data.toList,
    .utf8 "I".toUTF8.data.toList, .utf8 "ConstantValue".toUTF8.data.toList, .integer 1]
  flags := 0
  thisIndex := 2
  superIndex := 0
  interfaces := []
  fields := [⟨0x18, 3, 4, [⟨5, [0, 6]⟩]⟩]
  methods := []
  attributes := []

/-- A directory with two classes. -/
def twoClasses : FileSystem where
  nodes := [(["cp"], .directory), (["cp", "a"], .directory),
    (["cp", "a", "B.class"], .file ⟨(constantClassFile "a/B").encode.toArray⟩ false),
    (["cp", "a_B.class"], .file ⟨(constantClassFile "a_B").encode.toArray⟩ false)]
  workingDirectory := []

/-- A generator that finds the two classes. -/
def twoClassesGenerator : Generator :=
  ofSearchPath { roots := [.classes { path := ⟨"cp"⟩, storage := .directory, releases := [] }] }

/-- The search path of `twoClassesGenerator` is opened from the directory. -/
theorem ofEntries_twoClasses :
    SearchPath.ofEntries twoClasses [] [.classes ⟨"cp"⟩] = .ok twoClassesGenerator.searchPath := by
  rfl

/-- A directory with two classes whose header files differ, and a class that declares nothing. -/
def distinctHeaders : FileSystem where
  nodes := [(["cp"], .directory), (["cp", "a"], .directory),
    (["cp", "a", "B.class"], .file ⟨(constantClassFile "a/B").encode.toArray⟩ false),
    (["cp", "C.class"], .file ⟨(constantClassFile "C").encode.toArray⟩ false),
    (["cp", "D.class"], .file
      ⟨{ constantClassFile "D" with fields := [] }.encode.toArray⟩ false)]
  workingDirectory := []

/-- The requests for all three. -/
def distinctRequests : List ClassRequest :=
  [.named { internal := "a/B" }, .named { internal := "D" }, .named { internal := "C" }]

/-- The run for these classes writes two headers side by side and loses none of them. -/
theorem read_headerPath_twoClasses :
    (twoClassesGenerator.rendered distinctHeaders distinctRequests ⟨"out"⟩).map
        Rendering.fileName = ["a_B.h", "C.h"] ∧
      ∀ rendering ∈ twoClassesGenerator.rendered distinctHeaders distinctRequests ⟨"out"⟩,
        (twoClassesGenerator.filesAfter distinctHeaders distinctRequests ⟨"out"⟩).read
          (headerPath ⟨"out"⟩ rendering.summary) = .ok rendering.text.toUTF8 := by
  constructor
  · decide +kernel
  · have hheaders := read_headerPath_iff twoClassesGenerator distinctHeaders distinctRequests
      ⟨"out"⟩ _ rfl (by decide +kernel)
    exact hheaders.2.mpr (by decide +kernel)

/-- The requests for both classes. -/
def twoClassesRequests : List ClassRequest :=
  [.named { internal := "a/B" }, .named { internal := "a_B" }]

/-- The run for both classes, which have distinct legal names, reports no failure, although the
header of the first one is gone. -/
theorem exists_header_lost :
    SearchPath.ofEntries twoClasses [] [.classes ⟨"cp"⟩] = .ok twoClassesGenerator.searchPath ∧
      (twoClassesGenerator.loadedClasses twoClasses twoClassesRequests).map ClassSummary.name =
        ["a/B", "a_B"] ∧
      ClassName.ofInternal "a/B" = .ok { internal := "a/B" } ∧
      ClassName.ofInternal "a_B" = .ok { internal := "a_B" } ∧
      ∃ report,
        (twoClassesGenerator.generate twoClasses twoClassesRequests (.perClass ⟨"out"⟩)).result =
            .ok report ∧
          report.isSuccess = true ∧
          ∃ rendering ∈ twoClassesGenerator.rendered twoClasses twoClassesRequests ⟨"out"⟩,
            (twoClassesGenerator.filesAfter twoClasses twoClassesRequests ⟨"out"⟩).read
              (headerPath ⟨"out"⟩ rendering.summary) ≠ .ok rendering.text.toUTF8 := by
  have hlost : (twoClassesGenerator.rendered twoClasses twoClassesRequests ⟨"out"⟩).any
      (fun rendering => ((twoClassesGenerator.filesAfter twoClasses twoClassesRequests ⟨"out"⟩).read
        (headerPath ⟨"out"⟩ rendering.summary)).toOption ≠ some rendering.text.toUTF8) = true := by
    decide +kernel
  obtain ⟨rendering, hmem, hne⟩ := List.any_eq_true.mp hlost
  refine ⟨ofEntries_twoClasses, by decide +kernel, rfl, rfl, _, rfl, by decide +kernel, rendering,
    hmem, fun hread => ?_⟩
  rw [hread] at hne
  simp [Except.toOption] at hne

end Generator

end NativeHeaders
