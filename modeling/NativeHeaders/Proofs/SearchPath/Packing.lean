import NativeHeaders.Proofs.ClassName
import NativeHeaders.Proofs.Generator.Loading
import NativeHeaders.Proofs.SearchPath.Trees

/-! # Packed and unpacked trees

A tree of files can be kept in a directory (`FileTree.Exploded`) or in an archive
(`FileTree.Packed`). Both can be opened, and a class is found in both alike, with one exception: a
manifest that is no UTF-8 counts in a directory, where the bytes that encode nothing are replaced,
and does not count in an archive. `find_alike_iff` says for which classes this makes a difference,
and `exists_find_ne` that there are such classes. -/

namespace NativeHeaders

/-! ### What is found depends on the files alone -/

namespace Holdings

variable {holdings other : Holdings} {name : String} {content : ByteArray}

/-- What is found under a name depends on what is kept under the name and under the names of its
versions. -/
theorem Gives.congr (hname : holdings.file? name = other.file? name)
    (hversion : ∀ release, 9 ≤ release → release ≤ 25 →
      holdings.file? (ClassTree.versionName release name) =
        other.file? (ClassTree.versionName release name))
    (hcount : holdings.hasVersions = other.hasVersions) (h : holdings.Gives name content) :
    other.Gives name content := by
  cases h with
  | @version release _ hversions hlatest =>
    obtain ⟨⟨hleast, hgreatest⟩, hheld, hnone⟩ := hlatest
    refine .version (hcount ▸ hversions) ⟨⟨hleast, hgreatest⟩, ?_, fun later hlater hle => ?_⟩
    · rw [← hversion release hleast hgreatest, hheld]
    · rw [← hversion later (by omega) hle, hnone later hlater hle]
  | plain hversions hheld =>
    refine .plain (fun hcounts release hleast hgreatest => ?_) (hname ▸ hheld)
    rw [← hversion release hleast hgreatest]
    exact hversions (hcount ▸ hcounts) release hleast hgreatest

/-- Places that hold the same files for a class, and count their versions alike, give the same for
it. -/
theorem gives_congr (hname : holdings.file? name = other.file? name)
    (hversion : ∀ release, 9 ≤ release → release ≤ 25 →
      holdings.file? (ClassTree.versionName release name) =
        other.file? (ClassTree.versionName release name))
    (hcount : holdings.hasVersions = other.hasVersions) :
    holdings.Gives name content ↔ other.Gives name content :=
  ⟨Gives.congr hname hversion hcount, Gives.congr hname.symm
    (fun release hleast hgreatest => (hversion release hleast hgreatest).symm) hcount.symm⟩

/-- Where versions do not count, the file itself is found. -/
theorem gives_iff_of_not_hasVersions (h : holdings.hasVersions = false) :
    holdings.Gives name content ↔ holdings.file? name = some content := by
  constructor
  · rintro (⟨hversions, -⟩ | ⟨-, hheld⟩)
    · rw [h] at hversions
      cases hversions
    · exact hheld
  · intro hheld
    exact .plain (fun hversions => absurd hversions (by simp [h])) hheld

/-- There is a latest version, or there is none at all. -/
theorem exists_isLatestVersion_or (holdings : Holdings) (name : String) :
    (∃ release content, holdings.IsLatestVersion name release content) ∨
      holdings.HasNoVersion name := by
  -- All supported releases, the latest first, are a list of the releases with versions.
  have hlists : Lists { holdings with hasVersions := true } Release.supported :=
    { sorted := by decide
      supported := fun release => Release.mem_supported.mp
      hasVersions := fun _ _ => rfl
      complete := fun _ release _ _ hleast hgreatest _ =>
        Release.mem_supported.mpr ⟨hleast, hgreatest⟩ }
  by_cases hsome : ∃ release ∈ Release.supported, ∃ content,
      holdings.file? (ClassTree.versionName release name) = some content
  · obtain ⟨content, hfirst⟩ := exists_firstOf.mpr hsome
    obtain ⟨-, release, hlatest⟩ := hlists.firstOf_iff.mp hfirst
    exact .inl ⟨release, content, hlatest.supported, hlatest.held, hlatest.latest⟩
  · refine .inr fun release hleast hgreatest => ?_
    cases hfile : holdings.file? (ClassTree.versionName release name) with
    | none => rfl
    | some content =>
      exact absurd ⟨release, Release.mem_supported.mpr ⟨hleast, hgreatest⟩, content, hfile⟩ hsome

end Holdings

/-! ### Trees of files -/

/-- Files by their names below a directory or in an archive. -/
abbrev FileTree := List (String × ByteArray)

namespace FileTree

variable {tree : FileTree} {files : FileSystem} {path directory jar : Path}

/-- What the tree holds, if it is known whether versions count. -/
def holdings (tree : FileTree) (hasVersions : Bool) : Holdings where
  file? name := tree.lookup name
  hasVersions := hasVersions

/-- What a tree holds is looked up in it. -/
@[simp] theorem file?_holdings (tree : FileTree) (hasVersions : Bool) (name : String) :
    (tree.holdings hasVersions).file? name = tree.lookup name := rfl

/-- The files below a directory are those of the tree. -/
structure Exploded (tree : FileTree) (files : FileSystem) (directory : Path) : Prop where
  /-- It is a directory. -/
  isDirectory : files.isDirectory directory = true
  /-- What can be read below it are the files of the tree. -/
  reads : ∀ name, Path.IsInner name →
    (files.read (directory.join name)).toOption = tree.lookup name
  /-- A directory stands where the manifest and the versions are, if anything does. -/
  metaInf : files.isFile (directory.join "META-INF") = false
  /-- A directory stands where the versions are, if anything does. -/
  versions : files.isFile (directory.join "META-INF/versions") = false
  /-- The manifest is a file, if there is one. -/
  manifest : files.isDirectory (directory.join "META-INF/MANIFEST.MF") = false
  /-- There is room for the names of the manifest and of the versions behind the path. -/
  room : directory.text.utf8ByteSize + 21 ≤ FileSystem.maxPathBytes

/-- The files in an archive are those of the tree. -/
structure Packed (tree : FileTree) (files : FileSystem) (jar : Path) : Prop where
  /-- By its name the archive is one whose classes stand at the top. -/
  isJar : jar.hasExtension ["jar"] = true
  /-- It can be opened. -/
  opens : (archiveAt? files jar).isSome
  /-- Everything in it can be read, and nothing is a link. -/
  reads : ∀ bytes archive, archiveAt? files jar = some (bytes, archive) →
    ∀ entry ∈ archive.entries, entry.isReadable = true ∧ (entry.content? bytes).isSome ∧
      entry.isLink = false
  /-- Its files are those of the tree. -/
  holds : ∀ name, Path.IsInner name → (Holdings.ofArchive files jar).file? name = tree.lookup name

/-- The manifest is no UTF-8, and what is left of it says that versions count. -/
def HasGarbledManifest (tree : FileTree) : Prop :=
  ∃ content, tree.lookup Manifest.path = some content ∧ String.fromUTF8? content = none ∧
    Manifest.isMultiRelease (Text.lossyText content) = true

/-! ### Opening the directory -/

/-- The names of the manifest and of the versions lead on from one place, which is a directory. -/
theorem Exploded.exists_location (h : tree.Exploded files directory) :
    ∃ location, files.node? location = some .directory ∧
      ∀ name, Path.IsRelative name → '\x00' ∉ name.toList → name ≠ "" → name.utf8ByteSize ≤ 20 →
        files.resolve (directory.join name) = files.walk location (Text.pieces '/' name) := by
  obtain ⟨location, hresolve, hnode⟩ := FileSystem.exists_resolve_of_isDirectory h.isDirectory
  refine ⟨location, hnode, fun name hname hnul hne hsize => ?_⟩
  refine FileSystem.resolve_join_of_resolve hresolve hname
    (FileSystem.checkPath_join (FileSystem.resolve_eq_ok.mp hresolve).1 hname hnul hne ?_)
  have hroom := h.room
  omega

/-- A walk to the manifest or to the versions ends where nothing is, or passes an entry of the
directory `META-INF`. -/
theorem Exploded.walk_metaInf (h : tree.Exploded files directory) {location : Location}
    (hnode : files.node? location = some .directory)
    (hresolve : files.resolve (directory.join "META-INF") = files.walk location ["META-INF"])
    {entry : String} (hentry : Path.IsEntryName entry)
    (hsize : entry.utf8ByteSize ≤ FileSystem.maxNameBytes) :
    (∀ rest, files.walk location ("META-INF" :: entry :: rest) = .error .notFound) ∨
      ∃ node, files.node? (location ++ ["META-INF", entry]) = some node ∧
        ∀ rest, files.walk location ("META-INF" :: entry :: rest) =
          files.walk (location ++ ["META-INF", entry]) rest := by
  have hmetaInf : Path.IsEntryName "META-INF" := ⟨by decide, by decide⟩
  obtain hmissing | ⟨outer, houter, hstep⟩ :=
    FileSystem.walk_entry_cases hnode hmetaInf (by decide)
  · exact .inl fun rest => hmissing (entry :: rest)
  · cases outer with
    | file content isExecutable =>
      -- `META-INF` is no file.
      have hfile := h.metaInf
      rw [FileSystem.isFile, FileSystem.nodeAt?, hresolve, hstep] at hfile
      simp [FileSystem.walk, houter] at hfile
    | directory =>
      obtain hmissing | ⟨node, hinner, hnext⟩ :=
        FileSystem.walk_entry_cases houter hentry hsize
      · exact .inl fun rest => (hstep (entry :: rest)).trans (hmissing rest)
      · rw [List.append_assoc, List.singleton_append] at hinner hnext
        exact .inr ⟨node, hinner, fun rest => (hstep (entry :: rest)).trans (hnext rest)⟩

/-- The manifest of an unpacked tree can be looked for. -/
theorem Exploded.manifestIn?_eq_ok (h : tree.Exploded files directory) :
    ∃ manifest, ClassTree.manifestIn? files directory = .ok manifest := by
  obtain ⟨location, hnode, hresolve⟩ := h.exists_location
  have hmetaInf := hresolve "META-INF" (by decide) (by decide) (by decide) (by decide)
  have hmanifest := hresolve Manifest.path (by decide) (by decide) (by decide) (by decide)
  unfold ClassTree.manifestIn?
  obtain hmissing | ⟨node, hentry, hwalk⟩ := h.walk_metaInf hnode hmetaInf
    (show Path.IsEntryName "MANIFEST.MF" from ⟨by decide, by decide⟩) (by decide)
  · have hread : files.read (directory.join Manifest.path) = .error .notFound := by
      rw [FileSystem.read, hmanifest]
      show files.walk location ("META-INF" :: "MANIFEST.MF" :: []) >>= _ = _
      rw [hmissing]
      rfl
    rw [hread]
    exact ⟨none, rfl⟩
  · have hlocated : files.resolve (directory.join Manifest.path) =
        .ok (location ++ ["META-INF", "MANIFEST.MF"]) := hmanifest.trans (hwalk [])
    cases node with
    | file content isExecutable =>
      have hread : files.read (directory.join Manifest.path) = .ok content :=
        FileSystem.read_eq_ok.mpr
          ⟨_, hlocated, FileSystem.contentAt?_eq_some.mpr ⟨isExecutable, hentry⟩⟩
      rw [hread]
      exact ⟨some _, rfl⟩
    | directory =>
      have hdirectory := FileSystem.isDirectory_of_resolve hlocated hentry
      exact absurd (h.manifest.symm.trans hdirectory) (by decide)

/-- The releases with versions in an unpacked tree can be listed. -/
theorem Exploded.versionNamesIn_eq_ok (h : tree.Exploded files directory) :
    ∃ names, ClassTree.versionNamesIn files directory = .ok names := by
  obtain ⟨location, hnode, hresolve⟩ := h.exists_location
  have hmetaInf := hresolve "META-INF" (by decide) (by decide) (by decide) (by decide)
  have hversions := hresolve "META-INF/versions" (by decide) (by decide) (by decide) (by decide)
  have hbelow := hresolve Manifest.versionsPath (by decide) (by decide) (by decide) (by decide)
  unfold ClassTree.versionNamesIn
  obtain hmissing | ⟨node, hentry, hwalk⟩ := h.walk_metaInf hnode hmetaInf
    (show Path.IsEntryName "versions" from ⟨by decide, by decide⟩) (by decide)
  · have hlist : files.list (directory.join Manifest.versionsPath) = .error .notFound := by
      rw [FileSystem.list, hbelow]
      show files.walk location ("META-INF" :: "versions" :: [""]) >>= _ = _
      rw [hmissing]
      rfl
    simp only [hlist]
    exact ⟨[], rfl⟩
  · cases node with
    | file content isExecutable =>
      -- `META-INF/versions` is no file.
      have hfile := h.versions
      rw [FileSystem.isFile, FileSystem.nodeAt?, hversions.trans (hwalk [])] at hfile
      simp [FileSystem.walk, hentry] at hfile
    | directory =>
      have hlocated : files.resolve (directory.join Manifest.versionsPath) =
          .ok (location ++ ["META-INF", "versions"]) :=
        (hbelow.trans (hwalk [""])).trans (FileSystem.walk_cons_eq_ok.mpr ⟨hentry, rfl⟩)
      simp only [FileSystem.list_of_resolve hlocated hentry]
      exact ⟨_, rfl⟩

/-- An unpacked tree can be opened. -/
theorem Exploded.ofDirectory_eq_ok (h : tree.Exploded files directory) :
    ∃ opened, ClassTree.ofDirectory files directory = .ok opened := by
  obtain ⟨manifest, hmanifest⟩ := h.manifestIn?_eq_ok
  obtain ⟨names, hnames⟩ := h.versionNamesIn_eq_ok
  rw [ClassTree.ofDirectory, hmanifest]
  cases hcount : manifest.any Manifest.isMultiRelease with
  | true =>
    refine ⟨{ path := directory, storage := .directory, releases := Release.ofNames names }, ?_⟩
    simp [bind, Except.bind, hcount, hnames]
    rfl
  | false =>
    refine ⟨{ path := directory, storage := .directory, releases := Release.ofNames [] }, ?_⟩
    simp [bind, Except.bind, hcount]
    rfl

/-! ### Opening the archive -/

/-- Classes stand at the top of an archive with the extension `jar`. -/
theorem baseFor_of_isJar (h : jar.hasExtension ["jar"] = true) : OpenedArchive.baseFor jar = "" := by
  rw [OpenedArchive.baseFor, if_neg]
  rw [Path.hasExtension] at h ⊢
  cases hextension : jar.fileName?.bind fun name => (Path.splitExtension name).2 with
  | none => simp
  | some extension =>
    simp only [hextension, List.any_cons, List.any_nil, Bool.or_false, Text.equalIgnoringCase,
      decide_eq_true_eq, OpenedArchive.basedExtension] at h ⊢
    rw [h]
    decide

/-- The archive of a packed tree can be opened, and its files stand at the top. -/
theorem Packed.archiveAt?_eq_some (h : tree.Packed files jar) :
    ∃ opened, OpenedArchive.ofFile files jar = .ok opened ∧
      archiveAt? files jar = some (opened.opened, opened.archive) ∧ opened.base = "" := by
  obtain ⟨⟨bytes, archive⟩, hsome⟩ := Option.isSome_iff_exists.mp h.opens
  have hopened := hsome
  rw [archiveAt?, Option.bind_eq_bind, Option.bind_eq_some_iff] at hopened
  obtain ⟨_, hread, hopened⟩ := hopened
  obtain ⟨_, harchive, hopened⟩ := Option.bind_eq_some_iff.mp hopened
  cases hopened
  rw [Fallible.toOption_eq_some] at hread harchive
  obtain ⟨location, hresolve, -⟩ := FileSystem.read_eq_ok.mp hread
  refine ⟨{ location, opened := bytes, archive, base := OpenedArchive.baseFor jar }, ?_, hsome,
    baseFor_of_isJar h.isJar⟩
  simp [OpenedArchive.ofFile, hresolve, hread, harchive, Except.mapError, bind, Except.bind]
  rfl

/-- A packed tree can be opened, and nothing in it is damaged. -/
theorem Packed.ofArchive_eq_ok (h : tree.Packed files jar) :
    ∃ opened, ClassTree.ofArchive files jar = .ok opened ∧ opened.IsUndamaged := by
  obtain ⟨opened, hopened, harchive, hbase⟩ := h.archiveAt?_eq_some
  have hreads := h.reads _ _ harchive
  have hmanifest : ∃ manifest, opened.manifest? jar = .ok manifest := by
    rw [OpenedArchive.manifest?,
      OpenedArchive.readable?_of_forall fun entry hentry => (hreads entry hentry).1]
    cases opened.archive.find? (opened.base ++ Manifest.path) with
    | none => exact ⟨none, rfl⟩
    | some entry => exact ⟨_, rfl⟩
  obtain ⟨manifest, hmanifest⟩ := hmanifest
  have hok : ClassTree.ofArchive files jar = .ok _ := Fallible.bind_eq_ok.mpr
    ⟨opened, hopened, Fallible.bind_eq_ok.mpr ⟨manifest, hmanifest, rfl⟩⟩
  refine ⟨_, hok, fun found hfound => ?_⟩
  cases hfound
  exact fun entry hentry => ⟨(hreads entry hentry).1, (hreads entry hentry).2.1⟩

/-! ### What is found -/

/-- Whether versions count in a directory. -/
def countsLossily (tree : FileTree) : Bool :=
  ((tree.lookup Manifest.path).map Text.lossyText).any Manifest.isMultiRelease

/-- Whether versions count in an archive. -/
def countsStrictly (tree : FileTree) : Bool :=
  ((tree.lookup Manifest.path).bind String.fromUTF8?).any Manifest.isMultiRelease

/-- The path of the manifest has proper parts only. -/
theorem isInner_manifest : Path.IsInner Manifest.path := by
  have hparts : Text.pieces '/' Manifest.path = ["META-INF", "MANIFEST.MF"] := by decide
  intro part hpart
  rw [hparts] at hpart
  simp only [List.mem_cons, List.not_mem_nil, or_false] at hpart
  obtain rfl | rfl := hpart
  · exact ⟨by decide, by decide⟩
  · exact ⟨by decide, by decide⟩

/-- A directory finds the files of the tree. -/
theorem Exploded.finds (h : tree.Exploded files directory) {opened : ClassTree}
    (hopened : ClassTree.ofDirectory files directory = .ok opened) {name : String}
    (hname : Path.IsInner name) :
    Finds (opened.find files name) ((tree.holdings tree.countsLossily).Gives name) := by
  have hfile : ∀ inner, Path.IsInner inner → (Holdings.ofDirectory files directory).file? inner =
      (tree.holdings tree.countsLossily).file? inner := by
    intro inner hinner
    rw [file?_holdings, ← h.reads inner hinner, Holdings.ofDirectory]
  have hcount : (Holdings.ofDirectory files directory).hasVersions = tree.countsLossily := by
    rw [Holdings.ofDirectory, h.reads _ isInner_manifest, countsLossily]
  exact (ClassTree.finds_ofDirectory hopened name).congr fun content =>
    Holdings.gives_congr (hfile name hname)
      (fun release hleast hgreatest => hfile _ (ClassTree.isInner_versionName
        (Release.mem_supported.mpr ⟨hleast, hgreatest⟩) hname)) hcount

/-- In a packed tree the versions count if the manifest is UTF-8 and says so. -/
theorem Packed.hasVersions_ofArchive (h : tree.Packed files jar) :
    (Holdings.ofArchive files jar).hasVersions = tree.countsStrictly := by
  obtain ⟨opened, hopened, harchive, hbase⟩ := h.archiveAt?_eq_some
  have hholds := h.holds _ isInner_manifest
  rw [OpenedArchive.ofArchive_eq_inArchive hopened, hbase] at hholds ⊢
  rw [countsStrictly, ← hholds]
  simp only [Holdings.inArchive]
  -- The entry with the name of the manifest is a file.
  cases hfind : opened.archive.find? ("" ++ Manifest.path) with
  | none => rfl
  | some entry =>
    obtain ⟨hmem, hname⟩ := OpenedArchive.mem_entries_of_find? hfind
    have hfile : entry.isFile = true := by
      rw [Archive.Entry.isFile, (h.reads _ _ harchive entry hmem).2.2, hname]
      decide
    simp [Option.filter_some, hfile]

/-- An archive finds the files of the tree. -/
theorem Packed.finds (h : tree.Packed files jar) {opened : ClassTree}
    (hopened : ClassTree.ofArchive files jar = .ok opened) (hundamaged : opened.IsUndamaged)
    {name : String} (hname : Path.IsInner name) :
    Finds (opened.find files name) ((tree.holdings tree.countsStrictly).Gives name) := by
  have hfile : ∀ inner, Path.IsInner inner → (Holdings.ofArchive files jar).file? inner =
      (tree.holdings tree.countsStrictly).file? inner := by
    intro inner hinner
    rw [file?_holdings, h.holds inner hinner]
  exact (ClassTree.finds_ofArchive hopened hundamaged name).congr fun content =>
    Holdings.gives_congr (hfile name hname)
      (fun release hleast hgreatest => hfile _ (ClassTree.isInner_versionName
        (Release.mem_supported.mpr ⟨hleast, hgreatest⟩) hname))
      h.hasVersions_ofArchive

/-- Both ways to read a manifest agree, unless it is garbled. -/
theorem countsLossily_eq_countsStrictly (h : ¬tree.HasGarbledManifest) :
    tree.countsLossily = tree.countsStrictly := by
  rw [countsLossily, countsStrictly]
  cases hmanifest : tree.lookup Manifest.path with
  | none => rfl
  | some content =>
    cases htext : String.fromUTF8? content with
    | some text => simp [htext, Text.lossyText_eq_of_fromUTF8? htext]
    | none =>
      cases hcount : Manifest.isMultiRelease (Text.lossyText content) with
      | true => exact absurd ⟨content, hmanifest, htext, hcount⟩ h
      | false => simp [htext, hcount]

/-- A garbled manifest counts in a directory and does not in an archive. -/
theorem HasGarbledManifest.counts (h : tree.HasGarbledManifest) :
    tree.countsLossily = true ∧ tree.countsStrictly = false := by
  obtain ⟨content, hmanifest, htext, hcount⟩ := h
  simp [countsLossily, countsStrictly, hmanifest, htext, hcount]

/-- Versions that count make no difference exactly if the latest version is what the file is. -/
theorem gives_iff_gives_iff {name : String} :
    (∀ content, (tree.holdings true).Gives name content ↔ (tree.holdings false).Gives name content) ↔
      ∀ release content, (tree.holdings true).IsLatestVersion name release content →
        tree.lookup name = some content := by
  have hplain : ∀ content, (tree.holdings false).Gives name content ↔ tree.lookup name = some content :=
    fun content => Holdings.gives_iff_of_not_hasVersions rfl
  simp only [hplain]
  constructor
  · intro hsame release content hlatest
    exact (hsame content).mp (.version rfl hlatest)
  · intro hlatest content
    constructor
    · rintro (⟨-, hversion⟩ | ⟨-, hheld⟩)
      · exact hlatest _ content hversion
      · exact hheld
    · intro hheld
      obtain ⟨release, found, hversion⟩ | hnone :=
        (tree.holdings true).exists_isLatestVersion_or name
      · have hfound := hlatest release found hversion
        rw [hheld] at hfound
        cases hfound
        exact .version rfl hversion
      · exact .plain (fun _ => hnone) hheld

/-- **When a packed tree resolves as the unpacked one does.** A tree of files can be opened in a
directory and in an archive, and no search for a class fails in either. Both find the same bytes for
a class, or nothing, unless the manifest is garbled and the latest version of the class is not what
stands in its own place. -/
theorem find_alike_iff (hexploded : tree.Exploded files directory) (hpacked : tree.Packed files jar) :
    ∃ unpacked packed, ClassTree.ofDirectory files directory = .ok unpacked ∧
      ClassTree.ofArchive files jar = .ok packed ∧
      ∀ name : ClassName, ClassName.isInternal name.internal = true →
        ∃ first second, unpacked.find files name.filePath = .ok first ∧
          packed.find files name.filePath = .ok second ∧
          (first.map ClassSource.bytes = second.map ClassSource.bytes ↔
            (tree.HasGarbledManifest → ∀ release content,
              (tree.holdings true).IsLatestVersion name.filePath release content →
                tree.lookup name.filePath = some content)) := by
  obtain ⟨unpacked, hunpacked⟩ := hexploded.ofDirectory_eq_ok
  obtain ⟨packed, hpackedOk, hundamaged⟩ := hpacked.ofArchive_eq_ok
  refine ⟨unpacked, packed, hunpacked, hpackedOk, fun name hname => ?_⟩
  have hinner := ClassName.isInner_filePath hname
  obtain ⟨first, hfirst, hfirstBytes⟩ := hexploded.finds hunpacked hinner
  obtain ⟨second, hsecond, hsecondBytes⟩ := hpacked.finds hpackedOk hundamaged hinner
  refine ⟨first, second, hfirst, hsecond, ?_⟩
  rw [Option.ext_iff]
  simp only [hfirstBytes, hsecondBytes]
  by_cases hgarbled : tree.HasGarbledManifest
  · obtain ⟨hlossy, hstrict⟩ := hgarbled.counts
    rw [hlossy, hstrict, gives_iff_gives_iff]
    simp only [hgarbled, forall_const]
  · simp [countsLossily_eq_countsStrictly hgarbled, hgarbled]

/-! ### A tree with a garbled manifest

In the manifest of this tree the last byte encodes nothing. Of the class `A` there is only a version
for a release, and of the class `B` there is none. -/

/-- The tree. -/
def garbledTree : FileTree :=
  [("META-INF/MANIFEST.MF", "Multi-Release:true\n".toUTF8.push 0xFF),
    ("META-INF/versions/9/A.class", ⟨#[9]⟩), ("B.class", ⟨#[8]⟩)]

/-- The records of a file in an archive that is not packed: the one that stands with its content at
a position, and the one in the directory. -/
def storedFile (position : Nat) (name : String) (content : ByteArray) : List UInt8 × List UInt8 :=
  let nameBytes := name.toUTF8.data.toList
  let facts := Generator.record [(2, 10), (2, 0), (2, Archive.Entry.storedMethod), (2, 0), (2, 33),
    (4, (Archive.checksum content).toNat), (4, content.size), (4, content.size),
    (2, nameBytes.length), (2, 0)]
  (Generator.record [(4, Archive.Entry.localSignature)] ++ facts ++ nameBytes ++
      content.data.toList,
    Generator.record [(4, Archive.Entry.signature), (2, 10)] ++ facts ++
      Generator.record [(2, 0), (2, 0), (2, 0), (4, 0), (4, position)] ++ nameBytes)

/-- An archive with the files of a tree, which are not packed. -/
def stored (tree : FileTree) : ByteArray :=
  let (contents, directory) := tree.foldl (fun (contents, directory) (name, content) =>
    let (file, entry) := storedFile contents.length name content
    (contents ++ file, directory ++ entry)) ([], [])
  let ending := Generator.record [(4, Archive.Placement.endSignature), (2, 0), (2, 0),
    (2, tree.length), (2, tree.length), (4, directory.length), (4, contents.length), (2, 0)]
  ⟨(contents ++ directory ++ ending).toArray⟩

/-- The tree in a directory and in an archive. -/
def garbledFiles : FileSystem where
  nodes := [(["cp"], .directory), (["cp", "META-INF"], .directory),
    (["cp", "META-INF", "MANIFEST.MF"], .file ("Multi-Release:true\n".toUTF8.push 0xFF) false),
    (["cp", "META-INF", "versions"], .directory),
    (["cp", "META-INF", "versions", "9"], .directory),
    (["cp", "META-INF", "versions", "9", "A.class"], .file ⟨#[9]⟩ false),
    (["cp", "B.class"], .file ⟨#[8]⟩ false),
    (["lib.jar"], .file (stored garbledTree) false)]
  workingDirectory := []

/-- The archive has the files of the tree, and all of them can be read. -/
theorem archiveAt?_garbledFiles :
    ∃ bytes archive, archiveAt? garbledFiles ⟨"lib.jar"⟩ = some (bytes, archive) ∧
      archive.names = garbledTree.map Prod.fst ∧
      (∀ entry ∈ archive.entries, entry.isReadable = true ∧ (entry.content? bytes).isSome ∧
        entry.isLink = false) ∧
      ∀ file ∈ garbledTree, (Holdings.inArchive archive bytes "").file? file.1 =
        garbledTree.lookup file.1 := by
  have hread : (archiveAt? garbledFiles ⟨"lib.jar"⟩).any (fun (bytes, archive) => decide
      (archive.names = garbledTree.map Prod.fst ∧
        (∀ entry ∈ archive.entries, entry.isReadable = true ∧ (entry.content? bytes).isSome ∧
          entry.isLink = false) ∧
        ∀ file ∈ garbledTree, (Holdings.inArchive archive bytes "").file? file.1 =
          garbledTree.lookup file.1)) = true := by
    decide +kernel
  rw [Option.any_eq_true] at hread
  obtain ⟨⟨bytes, archive⟩, harchive, hfacts⟩ := hread
  exact ⟨bytes, archive, harchive, of_decide_eq_true hfacts⟩

/-- A name that the tree does not have leads to no file. -/
theorem lookup_eq_none_of_notMem {name : String} (h : name ∉ tree.map Prod.fst) :
    tree.lookup name = none := by
  rw [List.lookup_eq_none_iff]
  intro file hfile
  have hne : name ≠ file.1 := by
    rintro rfl
    exact h (List.mem_map_of_mem hfile)
  simpa using hne

/-- The archive holds the tree. -/
theorem packed_garbledTree : garbledTree.Packed garbledFiles ⟨"lib.jar"⟩ := by
  obtain ⟨bytes, archive, harchive, hnames, hentries, hfiles⟩ := archiveAt?_garbledFiles
  refine ⟨by decide, by rw [harchive]; rfl, fun bytes' archive' harchive' => ?_, fun name _ => ?_⟩
  · rw [harchive] at harchive'
    cases harchive'
    exact hentries
  · have hbase : Holdings.baseIn ⟨"lib.jar"⟩ = "" := by decide
    rw [Holdings.ofArchive, harchive, hbase]
    by_cases hname : name ∈ garbledTree.map Prod.fst
    · obtain ⟨file, hfile, rfl⟩ := List.mem_map.mp hname
      exact hfiles file hfile
    · have hfind : archive.find? name = none := by
        rw [Archive.find?, List.find?_eq_none]
        intro entry hentry hentryName
        rw [← hnames, ← of_decide_eq_true hentryName] at hname
        exact hname (List.mem_map_of_mem (List.mem_reverse.mp hentry))
      rw [lookup_eq_none_of_notMem hname]
      simp [Holdings.inArchive, hfind]

/-- The directory holds the tree. -/
theorem exploded_garbledTree : garbledTree.Exploded garbledFiles ⟨"cp"⟩ := by
  refine ⟨by decide +kernel, fun name hname => ?_, by decide +kernel, by decide +kernel,
    by decide +kernel, by decide⟩
  by_cases hmem : name ∈ garbledTree.map Prod.fst
  · have hall : ∀ name ∈ garbledTree.map Prod.fst,
        (garbledFiles.read (Path.join ⟨"cp"⟩ name)).toOption = garbledTree.lookup name := by
      decide +kernel
    exact hall name hmem
  · rw [lookup_eq_none_of_notMem hmem]
    cases hread : garbledFiles.read (Path.join ⟨"cp"⟩ name) with
    | error cause => rfl
    | ok content =>
      -- What can be read below the directory is one of its files.
      obtain ⟨location, hresolve, hcontent⟩ := FileSystem.read_eq_ok.mp hread
      rw [FileSystem.resolve_join _ hname.isRelative] at hresolve
      obtain ⟨-, between, hlead, hwalk⟩ := hresolve
      have hdirectory : garbledFiles.resolve ⟨"cp"⟩ = .ok ["cp"] := rfl
      rw [FileSystem.walk_leadParts hdirectory] at hlead
      cases hlead
      obtain rfl := FileSystem.walk_entryNames hname hwalk
      obtain ⟨isExecutable, hnode⟩ := FileSystem.contentAt?_eq_some.mp hcontent
      have hfiles : ∀ entry ∈ garbledFiles.nodes, entry.2 ≠ .directory → entry.1 = ["lib.jar"] ∨
          ∃ name ∈ garbledTree.map Prod.fst, entry.1 = ["cp"] ++ Text.pieces '/' name := by
        decide +kernel
      obtain hjar | ⟨other, hother, hpath⟩ :=
        hfiles _ (FileSystem.mem_of_node?_eq_some hnode (by simp)) (by simp)
      · simp at hjar
      · obtain rfl := Text.pieces_inj.mp (List.append_cancel_left hpath)
        exact absurd hother hmem

/-- The manifest of the tree is garbled: it asks for versions, but for the last byte. -/
theorem hasGarbledManifest_garbledTree : garbledTree.HasGarbledManifest :=
  ⟨"Multi-Release:true\n".toUTF8.push 0xFF, rfl, by decide +kernel, by decide +kernel⟩

/-- The class without versions is found in both. -/
theorem find_alike_garbledTree :
    garbledTree.HasGarbledManifest ∧
      ∃ unpacked packed, ClassTree.ofDirectory garbledFiles ⟨"cp"⟩ = .ok unpacked ∧
        ClassTree.ofArchive garbledFiles ⟨"lib.jar"⟩ = .ok packed ∧
        ∃ first second, unpacked.find garbledFiles "B.class" = .ok first ∧
          packed.find garbledFiles "B.class" = .ok second ∧
          first.map ClassSource.bytes = second.map ClassSource.bytes := by
  refine ⟨hasGarbledManifest_garbledTree, ?_⟩
  obtain ⟨unpacked, packed, hunpacked, hpacked, hfind⟩ :=
    find_alike_iff exploded_garbledTree packed_garbledTree
  obtain ⟨first, second, hfirst, hsecond, halike⟩ := hfind { internal := "B" } (by decide)
  refine ⟨unpacked, packed, hunpacked, hpacked, first, second, hfirst, hsecond, halike.mpr ?_⟩
  intro _ release content hlatest
  have hnone : ∀ release ∈ Release.supported,
      garbledTree.lookup (ClassTree.versionName release "B.class") = none := by
    decide +kernel
  have hheld := hlatest.held
  rw [file?_holdings] at hheld
  exact absurd (hheld.symm.trans (hnone release (Release.mem_supported.mpr hlatest.supported)))
    (by simp)

/-- The class that has only a version is found in the directory, and not in the archive. -/
theorem exists_find_ne :
    ∃ (tree : FileTree) (files : FileSystem) (directory jar : Path) (name : ClassName),
      tree.Exploded files directory ∧ tree.Packed files jar ∧
        ClassName.parse "A" = .ok name ∧
        ∃ unpacked packed first second,
          ClassTree.ofDirectory files directory = .ok unpacked ∧
          ClassTree.ofArchive files jar = .ok packed ∧
          unpacked.find files name.filePath = .ok first ∧
          packed.find files name.filePath = .ok second ∧
          first.map ClassSource.bytes ≠ second.map ClassSource.bytes := by
  obtain ⟨unpacked, hunpacked⟩ := exploded_garbledTree.ofDirectory_eq_ok
  obtain ⟨packed, hpacked, hundamaged⟩ := packed_garbledTree.ofArchive_eq_ok
  let name : ClassName := { internal := "A" }
  have hinner : Path.IsInner name.filePath := ClassName.isInner_filePath (by decide)
  obtain ⟨first, hfirst, hfirstBytes⟩ := exploded_garbledTree.finds hunpacked hinner
  obtain ⟨second, hsecond, hsecondBytes⟩ := packed_garbledTree.finds hpacked hundamaged hinner
  refine ⟨garbledTree, garbledFiles, ⟨"cp"⟩, ⟨"lib.jar"⟩, name, exploded_garbledTree,
    packed_garbledTree, rfl, unpacked, packed, first, second, hunpacked, hpacked, hfirst, hsecond,
    fun halike => ?_⟩
  obtain ⟨hlossy, hstrict⟩ := hasGarbledManifest_garbledTree.counts
  have hlater : ∀ later ∈ Release.supported, 9 < later →
      garbledTree.lookup (ClassTree.versionName later name.filePath) = none := by
    decide +kernel
  have hlatest : (garbledTree.holdings true).IsLatestVersion name.filePath 9 ⟨#[9]⟩ :=
    { supported := by decide
      held := by decide +kernel
      latest := fun later hlt hle => hlater later (Release.mem_supported.mpr ⟨by omega, hle⟩) hlt }
  have hversion : first.map ClassSource.bytes = some ⟨#[9]⟩ := by
    rw [hfirstBytes, hlossy]
    exact .version rfl hlatest
  rw [halike, hsecondBytes, hstrict, Holdings.gives_iff_of_not_hasVersions rfl] at hversion
  exact absurd hversion (by decide +kernel)

end FileTree

end NativeHeaders
