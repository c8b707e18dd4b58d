import NativeHeaders.Proofs.SearchPath.Holdings

/-! # Directories and archives as holdings

A directory holds the files that can be read below it, an archive the files that its directory
names. When a tree is opened, the releases with versions are listed: in a directory by the names
below `META-INF/versions`, in an archive by the names of all entries. Both lists leave out no release
that matters, and so both kinds of trees find what their holdings give (`finds_ofDirectory`,
`finds_ofArchive`). -/

namespace NativeHeaders

/-! ### Names of versions -/

namespace ClassTree

variable {release : Nat}

/-- A version stands below the directory of versions, in the one of its release. -/
theorem versionName_eq (release : Nat) (name : String) :
    versionName release name = Manifest.versionsPath ++ (toString release ++ "/" ++ name) := by
  simp [versionName, String.append_assoc]

/-- The name of a version is relative. -/
theorem isRelative_versionName (release : Nat) (name : String) :
    Path.IsRelative (versionName release name) := by
  rw [Path.IsRelative, versionName_eq, String.toList_append]
  show ('M' :: _).head? ≠ some '/'
  simp

/-- The number of a supported release is the name of an entry, and has one part. -/
theorem isEntryName_toString (h : release ∈ Release.supported) :
    Path.IsEntryName (toString release) ∧ '/' ∉ (toString release).toList := by
  have hall : ∀ release ∈ Release.supported, (Path.isIdle (toString release) = false ∧
      toString release ≠ "..") ∧ '/' ∉ (toString release).toList := by decide +kernel
  exact hall release h

/-- The directory of a release has three parts. -/
theorem pieces_versionsPath (h : release ∈ Release.supported) :
    Text.pieces '/' (Manifest.versionsPath ++ toString release) =
      ["META-INF", "versions"] ++ [toString release] := by
  have hdirectory : Text.pieces '/' "META-INF/versions" = ["META-INF", "versions"] := by decide
  have hslash : Manifest.versionsPath = "META-INF/versions" ++ "/" := by decide
  rw [hslash, Text.pieces_append_slash, hdirectory,
    Text.pieces_of_notMem (isEntryName_toString h).2]

/-- Behind these three the name of a version has the parts of the file name. -/
theorem pieces_versionName (h : release ∈ Release.supported) (name : String) :
    Text.pieces '/' (versionName release name) =
      ["META-INF", "versions"] ++ toString release :: Text.pieces '/' name := by
  rw [versionName, Text.pieces_append_slash, pieces_versionsPath h, List.append_assoc,
    List.singleton_append]

/-- The name of a version has proper parts only. -/
theorem isInner_versionName (h : release ∈ Release.supported) {name : String}
    (hname : Path.IsInner name) : Path.IsInner (versionName release name) := by
  intro part hpart
  rw [pieces_versionName h] at hpart
  simp only [List.mem_append, List.mem_cons, List.not_mem_nil, or_false] at hpart
  obtain (rfl | rfl) | rfl | hpart := hpart
  · exact Path.isEntryName_of_mem (show 'M' ∈ _ by decide) (by decide)
  · exact Path.isEntryName_of_mem (show 'v' ∈ _ by decide) (by decide)
  · exact (isEntryName_toString h).1
  · exact hname part hpart

end ClassTree

variable {files : FileSystem} {path : Path} {tree : ClassTree}

/-! ### Directories -/

/-- What stands below a directory. -/
def Holdings.ofDirectory (files : FileSystem) (path : Path) : Holdings where
  file? name := (files.read (path.join name)).toOption
  hasVersions := ((files.read (path.join Manifest.path)).toOption.map Text.lossyText).any
    Manifest.isMultiRelease

/-- A directory holds the files that can be read below it. -/
theorem Holdings.file?_ofDirectory {name : String} {content : ByteArray} :
    (ofDirectory files path).file? name = some content ↔
      files.read (path.join name) = .ok content := Fallible.toOption_eq_some

namespace ClassTree

/-- If a file can be read below the directory of a release, the release is listed. -/
theorem toString_mem_versionNamesIn {names : List String} {name : String} {content : ByteArray}
    {release : Nat} (hnames : versionNamesIn files path = .ok names)
    (hsupported : release ∈ Release.supported)
    (hread : files.read (path.join (versionName release name)) = .ok content) :
    toString release ∈ names := by
  obtain ⟨hentry, hslash⟩ := isEntryName_toString hsupported
  have hnumber : Path.IsRelative (toString release) := fun hfirst =>
    hslash (List.mem_of_mem_head? hfirst)
  have hversions : Path.IsRelative "META-INF/versions" := by decide
  -- The way to the file leads through the directory of the release, and so through the one of all
  -- versions.
  obtain ⟨location, hresolve, -⟩ := FileSystem.read_eq_ok.mp hread
  have hversion : Path.IsRelative (Manifest.versionsPath ++ toString release) :=
    Path.IsRelative.append (by decide) (by decide) _
  obtain ⟨directory, hdirectory, -, hnode, -⟩ :=
    FileSystem.resolve_join_slash hversion (by simp [Manifest.versionsPath]) hresolve
  obtain ⟨base, -, hbase, hbaseNode, hwalk⟩ :=
    FileSystem.resolve_join_slash hversions (by decide) hdirectory
  rw [Text.pieces_of_notMem hslash] at hwalk
  obtain rfl : directory = base ++ [toString release] :=
    FileSystem.walk_entryNames (by simpa using hentry) hwalk
  have hlisted : files.list (path.join Manifest.versionsPath) = .ok (files.entriesAt base) :=
    FileSystem.list_of_resolve hbase hbaseNode
  have hisDirectory : files.isDirectory
      ((path.join Manifest.versionsPath).join (toString release)) = true := by
    rw [Path.join_join path (by decide) (by decide) hnumber]
    exact FileSystem.isDirectory_of_resolve hdirectory hnode
  unfold versionNamesIn at hnames
  simp only [hlisted] at hnames
  cases hnames
  rw [List.mem_filter]
  exact ⟨FileSystem.mem_entriesAt hnode, hisDirectory⟩

/-- The manifest in a directory is the text of its file, in which bytes that encode nothing are
replaced. -/
theorem manifestIn?_eq_ok {manifest : Option String} (h : manifestIn? files path = .ok manifest) :
    manifest = (files.read (path.join Manifest.path)).toOption.map Text.lossyText := by
  unfold manifestIn? at h
  split at h
  · next hread =>
    cases h
    rw [hread]
    rfl
  · next hread =>
    cases h
    rw [hread]
    rfl
  · cases h

/-- A directory that was opened has the releases that it lists, if its manifest asks for versions.
-/
theorem ofDirectory_eq_ok (h : ofDirectory files path = .ok tree) :
    ∃ names, tree = ⟨path, .directory, Release.ofNames
        (if (Holdings.ofDirectory files path).hasVersions then names else [])⟩ ∧
      ((Holdings.ofDirectory files path).hasVersions = true →
        versionNamesIn files path = .ok names) := by
  obtain ⟨manifest, hmanifest, h⟩ := Fallible.bind_eq_ok.mp h
  have hversions : manifest.any Manifest.isMultiRelease =
      (Holdings.ofDirectory files path).hasVersions := by
    rw [manifestIn?_eq_ok hmanifest]
    rfl
  dsimp only at h
  rw [hversions] at h
  split at h
  · next hcount =>
    obtain ⟨names, hnames, h⟩ := Fallible.bind_eq_ok.mp h
    cases h
    exact ⟨names, by simp only [hcount, if_true], fun _ => hnames⟩
  · next hcount =>
    cases h
    exact ⟨[], by simp only [ite_self], fun hcount' => absurd hcount' hcount⟩

/-- Below a directory a search finds the files that the directory holds. -/
theorem finds_findBelow (files : FileSystem) (path : Path) (name : String) :
    Finds (findBelow files path name)
      (fun content => (Holdings.ofDirectory files path).file? name = some content) := by
  simp only [findBelow, Holdings.ofDirectory]
  rw [FileSystem.isFile_eq_isOk]
  cases files.read (path.join name) with
  | error cause => exact ⟨none, rfl, fun content => by simp [Except.toOption]⟩
  | ok bytes => exact ⟨_, rfl, fun content => by simp [Except.toOption]⟩

/-- **A directory that was opened finds what it holds.** -/
theorem finds_ofDirectory (h : ofDirectory files path = .ok tree) (name : String) :
    Finds (tree.find files name) ((Holdings.ofDirectory files path).Gives name) := by
  obtain ⟨names, rfl, hnames⟩ := ofDirectory_eq_ok h
  have hlists : (Holdings.ofDirectory files path).Lists (Release.ofNames
      (if (Holdings.ofDirectory files path).hasVersions then names else [])) := by
    refine Release.lists_ofNames fun hversions release name content hleast hgreatest hfile => ?_
    rw [Holdings.file?_ofDirectory] at hfile
    exact toString_mem_versionNamesIn (hnames hversions)
      (Release.mem_supported.mpr ⟨hleast, hgreatest⟩) hfile
  exact (Finds.first fun candidate _ => finds_findBelow files path candidate).congr
    fun content => hlists.gives_iff

end ClassTree

/-! ### Archives -/

namespace OpenedArchive

variable {opened : OpenedArchive}

/-- Every file in the archive can be read. -/
def IsUndamaged (opened : OpenedArchive) : Prop :=
  ∀ entry ∈ opened.archive.entries,
    entry.isReadable = true ∧ (entry.content? opened.opened).isSome = true

instance (opened : OpenedArchive) : Decidable opened.IsUndamaged :=
  inferInstanceAs (Decidable (∀ entry ∈ opened.archive.entries, _ ∧ _))

end OpenedArchive

/-- The bytes of the archive at a path, and its directory. -/
def archiveAt? (files : FileSystem) (path : Path) : Option (ByteArray × Archive) := do
  let bytes ← (files.read path).toOption
  let archive ← (Archive.ofBytes bytes).toOption
  return (bytes, archive)

namespace Holdings

/-- What an archive holds below a base, by the names in its directory. Directories and links are no
files, and a manifest counts if it is UTF-8. -/
def inArchive (archive : Archive) (bytes : ByteArray) (base : String) : Holdings where
  file? name := ((archive.find? (base ++ name)).filter (·.isFile)).bind (·.content? bytes)
  hasVersions := (((archive.find? (base ++ Manifest.path)).bind (·.content? bytes)).bind
    String.fromUTF8?).any Manifest.isMultiRelease

/-- **Where the files of an archive stand** in it: below `classes/` in a `jmod`, and at the top in
every other archive. -/
def baseIn (path : Path) : String := if path.hasExtension ["jmod"] then "classes/" else ""

/-- What the archive at a path holds. -/
def ofArchive (files : FileSystem) (path : Path) : Holdings :=
  match archiveAt? files path with
  | none => { file? _ := none, hasVersions := false }
  | some (bytes, archive) => inArchive archive bytes (baseIn path)

end Holdings

namespace OpenedArchive

variable {opened : OpenedArchive}

/-- Classes are looked for where the files of an archive stand. -/
theorem baseFor_eq_baseIn (path : Path) : baseFor path = Holdings.baseIn path := by
  rw [baseFor, basedExtension, Holdings.baseIn]

/-- An archive that was opened is the one at the path, with its base, and has its bytes. -/
theorem ofFile_eq_ok (h : ofFile files path = .ok opened) :
    archiveAt? files path = some (opened.opened, opened.archive) ∧
      opened.base = Holdings.baseIn path ∧ opened.bytes files = opened.opened := by
  obtain ⟨location, hresolve, h⟩ := Fallible.bind_eq_ok.mp h
  obtain ⟨bytes, hread, h⟩ := Fallible.bind_eq_ok.mp h
  obtain ⟨archive, harchive, h⟩ := Fallible.bind_eq_ok.mp h
  cases h
  rw [Fallible.mapError_eq_ok] at hresolve hread harchive
  refine ⟨by rw [archiveAt?, hread, Except.toOption]; simp [harchive, Except.toOption],
    baseFor_eq_baseIn path, ?_⟩
  -- In an unchanged file system the file has the bytes it had when it was opened.
  obtain ⟨found, hfound, hcontent⟩ := FileSystem.read_eq_ok.mp hread
  obtain rfl : location = found := Except.ok.inj (hresolve.symm.trans hfound)
  rw [OpenedArchive.bytes, hcontent]
  rfl

/-- What the archive at a path holds is what the opened one does. -/
theorem ofArchive_eq_inArchive (h : ofFile files path = .ok opened) :
    Holdings.ofArchive files path =
      Holdings.inArchive opened.archive opened.opened opened.base := by
  obtain ⟨harchive, hbase, -⟩ := ofFile_eq_ok h
  rw [Holdings.ofArchive, harchive, hbase]

/-- If an entry can be read, it is the one that stands under the name. -/
theorem readable?_eq_ok {archive : Archive} {name : String} {entry : Option Archive.Entry}
    (h : archive.readable? name = .ok entry) : archive.find? name = entry := by
  rw [Archive.readable?] at h
  split at h
  · next hfind =>
    cases h
    exact hfind
  · next hfind =>
    split at h
    · cases h
    · split at h
      · cases h
        exact hfind
      · cases h

/-- An entry that is found under a name is one of the archive and has this name. -/
theorem mem_entries_of_find? {archive : Archive} {name : String} {entry : Archive.Entry}
    (h : archive.find? name = some entry) : entry ∈ archive.entries ∧ entry.name = name := by
  have hmem := List.mem_of_find?_eq_some h
  have hname := List.find?_some h
  exact ⟨List.mem_reverse.mp hmem, of_decide_eq_true hname⟩

/-- If all entries are readable, nothing keeps one from being read. -/
theorem readable?_of_forall {archive : Archive}
    (h : ∀ entry ∈ archive.entries, entry.isReadable = true) (name : String) :
    archive.readable? name = .ok (archive.find? name) := by
  rw [Archive.readable?]
  cases hfind : archive.find? name with
  | none => rfl
  | some entry =>
    have hreadable := h entry (mem_entries_of_find? hfind).1
    have hplain : entry.isEncrypted = false := by
      simp only [Archive.Entry.isReadable, Bool.and_eq_true, Bool.not_eq_true'] at hreadable
      exact hreadable.1
    simp [hreadable, hplain]

/-- The manifest of an opened archive asks for versions exactly if the archive has them. -/
theorem manifest?_eq_ok {manifest : Option String} (h : opened.manifest? path = .ok manifest) :
    manifest.any Manifest.isMultiRelease =
      (Holdings.inArchive opened.archive opened.opened opened.base).hasVersions := by
  obtain ⟨entry, hentry, h⟩ := Fallible.bind_eq_ok.mp h
  have hfind := readable?_eq_ok (Fallible.mapError_eq_ok.mp hentry)
  rw [Holdings.inArchive, hfind]
  cases entry <;> cases h <;> rfl

/-- If an archive has a file below the directory of a release, the release is listed. -/
theorem toString_mem_versionNames {release : Nat} {name : String} {content : ByteArray}
    (hsupported : release ∈ Release.supported)
    (hfile : (Holdings.inArchive opened.archive opened.opened opened.base).file?
      (ClassTree.versionName release name) = some content) :
    toString release ∈ opened.versionNames := by
  have hslash := (ClassTree.isEntryName_toString hsupported).2
  obtain ⟨entry, hentry, -⟩ := Option.bind_eq_some_iff.mp hfile
  obtain ⟨hmem, hname⟩ := mem_entries_of_find? (Option.filter_eq_some_iff.mp hentry).1
  unfold versionNames
  rw [List.mem_filterMap]
  refine ⟨entry.name, List.mem_map_of_mem hmem, ?_⟩
  have hbelow : Text.afterPrefix? (opened.base ++ Manifest.versionsPath).toList entry.name.toList =
      some ((toString release).toList ++ '/' :: name.toList) := by
    rw [hname, ClassTree.versionName_eq, Text.afterPrefix?]
    simp [List.append_assoc]
  have hcut : Text.cutFirst '/' ((toString release).toList ++ '/' :: name.toList) =
      some ((toString release).toList, name.toList) :=
    Text.cutFirst_eq_some_iff.mpr ⟨rfl, hslash⟩
  rw [hbelow, Option.bind_eq_bind, Option.bind_some, hcut]
  exact congrArg some String.ofList_toList

/-- An opened archive that is not damaged finds the files that it holds. -/
theorem finds_find (hundamaged : opened.IsUndamaged) (hbytes : opened.bytes files = opened.opened)
    (path : Path) (name : String) :
    Finds (opened.find files path name)
      (fun content => (Holdings.inArchive opened.archive opened.opened opened.base).file? name =
        some content) := by
  rw [OpenedArchive.find, hbytes, readable?_of_forall fun entry hentry => (hundamaged entry hentry).1]
  simp only [Holdings.inArchive]
  cases hfind : opened.archive.find? (opened.base ++ name) with
  | none => exact ⟨none, rfl, fun content => by simp⟩
  | some entry =>
    obtain ⟨bytes, hbytes⟩ :=
      Option.isSome_iff_exists.mp (hundamaged entry (mem_entries_of_find? hfind).1).2
    cases hfile : entry.isFile with
    | false =>
      refine ⟨none, ?_, fun content => ?_⟩
      · simp [bind, Except.bind, Except.mapError, hfile]
        rfl
      · simp [Option.filter_some, hfile]
    | true =>
      refine ⟨some { bytes, origin := ⟨path.text ++ "!/" ++ (opened.base ++ name)⟩ }, ?_,
        fun content => ?_⟩
      · simp [bind, Except.bind, Except.mapError, hfile, hbytes]
        rfl
      · simp [Option.filter_some, hfile, hbytes]

end OpenedArchive

namespace ClassTree

/-- The archive in which a tree is kept can be read. -/
def IsUndamaged (tree : ClassTree) : Prop :=
  ∀ opened, tree.storage = .archive opened → opened.IsUndamaged

instance (tree : ClassTree) : Decidable tree.IsUndamaged :=
  match hstorage : tree.storage with
  | .directory => isTrue fun _ harchive => nomatch hstorage.symm.trans harchive
  | .archive opened => decidable_of_iff opened.IsUndamaged
      ⟨fun h _ harchive => TreeStorage.archive.inj (hstorage.symm.trans harchive) ▸ h,
        fun h => h opened hstorage⟩

/-- A tree that was opened from an archive has the releases that it names, if its manifest asks for
versions. -/
theorem ofArchive_eq_ok (h : ofArchive files path = .ok tree) :
    ∃ opened, OpenedArchive.ofFile files path = .ok opened ∧
      tree = ⟨path, .archive opened, Release.ofNames
        (if (Holdings.ofArchive files path).hasVersions then opened.versionNames else [])⟩ := by
  obtain ⟨opened, hopened, h⟩ := Fallible.bind_eq_ok.mp h
  obtain ⟨manifest, hmanifest, h⟩ := Fallible.bind_eq_ok.mp h
  cases h
  refine ⟨opened, hopened, ?_⟩
  rw [OpenedArchive.ofArchive_eq_inArchive hopened, ← OpenedArchive.manifest?_eq_ok hmanifest]

/-- **An archive that was opened finds what it holds.** -/
theorem finds_ofArchive (h : ofArchive files path = .ok tree) (hundamaged : tree.IsUndamaged)
    (name : String) :
    Finds (tree.find files name) ((Holdings.ofArchive files path).Gives name) := by
  obtain ⟨opened, hopened, rfl⟩ := ofArchive_eq_ok h
  have hlists : (Holdings.ofArchive files path).Lists (Release.ofNames
      (if (Holdings.ofArchive files path).hasVersions then opened.versionNames else [])) := by
    refine Release.lists_ofNames fun _ release name content hleast hgreatest hfile => ?_
    rw [OpenedArchive.ofArchive_eq_inArchive hopened] at hfile
    exact OpenedArchive.toString_mem_versionNames
      (Release.mem_supported.mpr ⟨hleast, hgreatest⟩) hfile
  refine (Finds.first fun candidate _ => ?_).congr fun content => hlists.gives_iff
  rw [OpenedArchive.ofArchive_eq_inArchive hopened]
  exact OpenedArchive.finds_find (hundamaged opened rfl) (OpenedArchive.ofFile_eq_ok hopened).2.2
    path candidate

end ClassTree

end NativeHeaders
