import NativeHeaders.Proofs.FileSystem.Trees
import NativeHeaders.Proofs.SearchPath.Capacity

/-! # Searches that changes do not disturb

Files are written and directories are made while classes are looked for. A search does not notice
if nothing is put where a class file may stand or where an opened archive stands, and if none of the
directories that it searches comes into being (`ClassTree.Keeps`). Then every class is found as it
was found before, and every search that failed fails in the same way (`SearchPath.resolve_eq`). -/

namespace NativeHeaders

/-- Searches that give the same in each place give the same in all of them. -/
theorem Fallible.findSomeM?_congr {ε α β : Type} {first second : α → Except ε (Option β)}
    {places : List α} (h : ∀ place ∈ places, first place = second place) :
    places.findSomeM? first = places.findSomeM? second := by
  induction places with
  | nil => rfl
  | cons place places ih =>
    rw [List.forall_mem_cons] at h
    rw [List.findSomeM?_cons, List.findSomeM?_cons, h.1, ih h.2]

/-- The text ends as the names of class files do. -/
def NamesClassFile (text : String) : Prop := ".class".toList <:+ text.toList

instance (text : String) : Decidable (NamesClassFile text) :=
  inferInstanceAs (Decidable (_ <:+ _))

/-! ### Files below a directory -/

namespace FileSystem

variable {files later : FileSystem} {path : Path} {places : Location → Prop} {name : String}

/-- The way to something below a directory leads through the directory. -/
theorem resolve_of_resolve_join (hne : path.text ≠ "") (hname : Path.IsRelative name)
    {location : Location} (h : files.resolve (path.join name) = .ok location) :
    ∃ directory, files.resolve path = .ok directory ∧
      files.node? directory = some .directory ∧
      files.walk directory (Text.pieces '/' name) = .ok location := by
  obtain ⟨hcheck, directory, hlead, hwalk⟩ := (resolve_join path hname).mp h
  obtain ⟨first, rest, hpieces⟩ := List.exists_cons_of_ne_nil (Text.pieces_ne_nil '/' name)
  have hnode : files.node? directory = some .directory := node?_of_walk_cons (hpieces ▸ hwalk)
  refine ⟨directory, resolve_eq_ok.mpr ⟨?_, ?_⟩, hnode, hwalk⟩
  · have hfront : ∃ back, path.lead ++ name = path.text ++ back := by
      rw [Path.lead]
      split
      · next hempty => exact absurd (by simpa using hempty) hne
      · exact ⟨name, rfl⟩
      · exact ⟨"/" ++ name, by simp [String.append_assoc]⟩
    obtain ⟨back, hback⟩ := hfront
    rw [Path.join_eq path hname, hback] at hcheck
    exact checkPath_of_append back hcheck hne
  · obtain hparts | hparts := Path.parts_eq_leadParts hne
    · rw [hparts]
      exact hlead
    · rw [hparts, walk_append_eq_ok]
      exact ⟨directory, hlead, walk_cons_eq_ok.mpr ⟨hnode, rfl⟩⟩

/-- **Changes that no class file notices.** The files were a tree, so that new directories make no way
to what was there, and they change at places only where no class file stands. -/
structure SparesClasses (places : Location → Prop) (files later : FileSystem) : Prop where
  /-- What stands somewhere stood in a directory. -/
  isTree : files.IsTree
  /-- Files change at the places only. -/
  changes : files.ChangesAt places later
  /-- At the places no class file stands. -/
  classFile : ∀ directory name, NamesClassFile name → ¬places (directory ++ [name])

/-- Below a directory that was there before, a file that is not in one of the places can be read if
it could be read before, and holds what it held. -/
theorem ChangesAt.read_join (h : ChangesAt places files later) (htree : files.IsTree)
    (hne : path.text ≠ "")
    (hdirectory : later.isDirectory path = true → files.isDirectory path = true)
    (hname : Path.IsInner name)
    (hplaces : ∀ directory, ¬places (directory ++ Text.pieces '/' name)) :
    (later.read (path.join name)).toOption = (files.read (path.join name)).toOption := by
  apply Option.ext
  intro content
  simp only [Fallible.toOption_eq_some, read_eq_ok]
  -- Wherever the path leads, the names below the directory spell out the end of the location.
  have hspelled : ∀ location, later.resolve (path.join name) = .ok location → ¬places location := by
    intro location hresolve
    obtain ⟨directory, -, -, hwalk⟩ := resolve_of_resolve_join hne hname.isRelative hresolve
    rw [walk_entryNames hname hwalk]
    exact hplaces directory
  constructor
  · rintro ⟨location, hresolve, hcontent⟩
    rw [h.contentAt?_eq (hspelled location hresolve)] at hcontent
    refine ⟨location, ?_, hcontent⟩
    obtain ⟨directory, hpath, hnode, hwalk⟩ :=
      resolve_of_resolve_join hne hname.isRelative hresolve
    obtain ⟨before, hbefore, -⟩ :=
      exists_resolve_of_isDirectory (hdirectory (isDirectory_of_resolve hpath hnode))
    obtain rfl : directory = before :=
      Except.ok.inj (hpath.symm.trans (h.keepsPaths.resolve hbefore))
    rw [resolve_join_of_resolve hbefore hname.isRelative (resolve_eq_ok.mp hresolve).1]
    obtain ⟨isExecutable, hfile⟩ := contentAt?_eq_some.mp hcontent
    exact htree.walk_of_walk hname hwalk (by simp [hfile])
  · rintro ⟨location, hresolve, hcontent⟩
    have hlater := h.keepsPaths.resolve hresolve
    exact ⟨location, hlater, (h.contentAt?_eq (hspelled location hlater)).trans hcontent⟩

end FileSystem

/-! ### Trees -/

namespace ClassName

/-- The file of a class ends in a name of a class file, whatever stands in front of it. -/
theorem pieces_fileFor (lead internal : String) :
    ∃ front last, Text.pieces '/' (lead ++ fileFor internal) = front ++ [last] ∧
      NamesClassFile last := by
  obtain ⟨front, last, -, hpieces⟩ := Text.segments_append_of_notMem
    (show '/' ∉ ".class".toList by decide) (lead ++ internal).toList
  refine ⟨front.map String.ofList, String.ofList (last ++ ".class".toList), ?_, ?_⟩
  · rw [Text.pieces, fileFor, filePath, ← String.append_assoc, String.toList_append, hpieces]
    simp
  · exact ⟨last, by simp⟩

end ClassName

namespace ClassTree

variable {files later : FileSystem} {places : Location → Prop} {tree : ClassTree}

/-- The later file system has no other classes for the tree: no archive of it stands in one of the
places, and its directory is not a new one. -/
def Keeps (tree : ClassTree) (places : Location → Prop) (files later : FileSystem) : Prop :=
  match tree.storage with
  | .directory => tree.path.text ≠ "" ∧ (∀ release ∈ tree.releases, release ∈ Release.supported) ∧
      (later.isDirectory tree.path = true → files.isDirectory tree.path = true)
  | .archive opened => ¬places opened.location

/-- Below a directory a file is found if it can be read, and a search there never fails. -/
theorem findBelow_eq (files : FileSystem) (path : Path) (name : String) :
    findBelow files path name =
      .ok ((files.read (path.join name)).toOption.map fun bytes =>
        { bytes, origin := path.join name }) := by
  rw [findBelow, FileSystem.isFile_eq_isOk]
  cases files.read (path.join name) <;> rfl

/-- The candidates for a class with a legal name have proper parts only. -/
theorem isInner_candidate {internal candidate : String}
    (hreleases : ∀ release ∈ tree.releases, release ∈ Release.supported)
    (hinternal : ClassName.isInternal internal = true)
    (h : candidate ∈ tree.candidates (ClassName.fileFor internal)) : Path.IsInner candidate := by
  have hinner : Path.IsInner (ClassName.fileFor internal) := ClassName.isInner_filePath hinternal
  rw [candidates, List.mem_append, List.mem_map, List.mem_singleton] at h
  obtain ⟨release, hrelease, rfl⟩ | rfl := h
  · exact isInner_versionName (hreleases release hrelease) hinner
  · exact hinner

/-- A tree finds what it found. -/
theorem Keeps.find_eq (h : tree.Keeps places files later)
    (hspares : files.SparesClasses places later) {internal : String} (hinternal : ClassName.isInternal internal = true) :
    tree.find later (ClassName.fileFor internal) =
      tree.find files (ClassName.fileFor internal) := by
  refine Fallible.findSomeM?_congr fun candidate hcandidate => ?_
  rw [findExactly, findExactly]
  unfold Keeps at h
  cases hstorage : tree.storage with
  | directory =>
    rw [hstorage] at h
    obtain ⟨hne, hreleases, hdirectory⟩ := h
    have hspelled : ∀ directory, ¬places (directory ++ Text.pieces '/' candidate) := by
      intro directory
      rw [candidates_eq, List.mem_map] at hcandidate
      obtain ⟨lead, -, rfl⟩ := hcandidate
      obtain ⟨front, last, hpieces, hlast⟩ := ClassName.pieces_fileFor lead internal
      rw [hpieces, ← List.append_assoc]
      exact hspares.classFile _ last hlast
    simp only [findBelow_eq]
    rw [hspares.changes.read_join hspares.isTree hne hdirectory
      (isInner_candidate hreleases hinternal hcandidate) hspelled]
  | archive opened =>
    rw [hstorage] at h
    have hbytes : opened.bytes later = opened.bytes files := by
      rw [OpenedArchive.bytes, OpenedArchive.bytes, hspares.changes.contentAt?_eq h]
    simp only [OpenedArchive.find, hbytes]

end ClassTree

/-! ### Search paths -/

variable {files later : FileSystem} {places : Location → Prop}

/-- A root finds what it found. -/
theorem Root.find_eq {root : Root} (h : ∀ tree ∈ root.trees, tree.Keeps places files later)
    (hspares : files.SparesClasses places later) {name : ClassName} (hinternal : ClassName.isInternal name.internal = true) :
    root.find later name = root.find files name := by
  have hfind : ∀ tree ∈ root.trees, tree.find later name.filePath = tree.find files name.filePath :=
    fun tree hmem => (h tree hmem).find_eq hspares hinternal
  have hmodules : ∀ directory : ModuleDirectory,
      (∀ tree ∈ directory.modules.map Module.tree,
        tree.find later name.filePath = tree.find files name.filePath) →
      directory.find later name = directory.find files name := by
    intro directory hall
    refine Fallible.findSomeM?_congr fun entry hentry => hall _ ?_
    exact List.mem_map_of_mem (ModuleDirectory.mem_of_mem_searched hentry)
  cases root with
  | classes tree => exact hfind tree List.mem_cons_self
  | modules directory => exact hmodules directory hfind
  | installation home layout =>
    cases layout with
    | archive tree => exact hfind tree List.mem_cons_self
    | modules directory => exact hmodules directory hfind

namespace SearchPath

variable {path : SearchPath}

/-- The trees of all roots. -/
def trees (path : SearchPath) : List ClassTree := path.roots.flatMap Root.trees

/-- **A search gives what it gave.** -/
theorem resolve_eq (h : ∀ tree ∈ path.trees, tree.Keeps places files later)
    (hspares : files.SparesClasses places later) {name : ClassName} (hinternal : ClassName.isInternal name.internal = true) :
    path.resolve later name = path.resolve files name := by
  refine Fallible.findSomeM?_congr fun root hroot =>
    Root.find_eq (fun tree hmem => ?_) hspares hinternal
  exact h tree (List.mem_flatMap.mpr ⟨root, hroot, hmem⟩)

end SearchPath

/-! ### Opened search paths -/

/-- The extension is the one of an archive. -/
def NamesArchive (name : String) : Prop :=
  ((Path.splitExtension name).2.any fun extension =>
    ClassTree.archiveExtensions.any (Text.equalIgnoringCase extension)) = true

/-- The last part is the file name, unless it leads upwards. -/
theorem Path.fileName?_of_parts {path : Path} {front : List String} {last : String}
    (hparts : path.parts = front ++ [last]) (hidle : isIdle last = false) :
    path.fileName? = if last = ".." then none else some last := by
  have hkept : (path.parts.filter (!isIdle ·)).getLast? = some last := by
    rw [hparts, List.filter_append, List.filter_cons_of_pos (by simp [hidle]), List.filter_nil,
      List.getLast?_concat]
  rw [fileName?, hkept]
  split
  · next heq => rw [if_pos (Option.some.inj heq)]
  · next hparent => rw [if_neg fun heq => hparent (congrArg some heq)]

/-- The path of a file ends in its file name. -/
theorem Path.endsIn_of_read {path : Path} {content : ByteArray} {name : String}
    (hread : files.read path = .ok content) (hname : path.fileName? = some name) :
    path.EndsIn name := by
  obtain ⟨location, hresolve, hcontent⟩ := FileSystem.read_eq_ok.mp hread
  obtain ⟨isExecutable, hfile⟩ := FileSystem.contentAt?_eq_some.mp hcontent
  obtain ⟨before, last, hparts⟩ : ∃ before last, path.parts = before ++ [last] := by
    obtain hnil | hconcat := List.eq_nil_or_concat' path.parts
    · exact absurd hnil (Text.pieces_ne_nil '/' path.text)
    · exact hconcat
  rw [FileSystem.resolve_eq_ok, hparts, FileSystem.walk_append_eq_ok] at hresolve
  obtain ⟨-, directory, -, hlast⟩ := hresolve
  obtain ⟨hnode, hlast⟩ := FileSystem.walk_cons_eq_ok.mp hlast
  have hidle : Path.isIdle last = false := by
    -- Behind an idle part the walk would still be in a directory.
    by_contra hidle
    rw [if_pos (by simpa using hidle)] at hlast
    cases hlast
    rw [hfile] at hnode
    cases hnode
  rw [fileName?_of_parts hparts hidle] at hname
  split at hname
  · cases hname
  · next hparent =>
    cases hname
    exact ⟨⟨hidle, hparent⟩, before, hparts⟩

namespace ClassTree

variable {tree : ClassTree}

/-- The tree was opened from a directory, or from a file that is an archive by its extension. -/
inductive OpenedFrom (files : FileSystem) (tree : ClassTree) : Prop where
  /-- A directory. -/
  | directory {path : Path} (hdirectory : files.isDirectory path = true)
      (h : ofDirectory files path = .ok tree)
  /-- An archive. -/
  | archive {path : Path} (hextension : path.hasExtension archiveExtensions = true)
      (h : ofArchive files path = .ok tree)

/-- A tree that was opened from an archive is one that is kept in it. -/
theorem OpenedFrom.of_isArchive {path : Path} (harchive : isArchive files path = true)
    (h : ofArchive files path = .ok tree) : OpenedFrom files tree := by
  rw [isArchive, Bool.and_eq_true] at harchive
  exact .archive harchive.2 h

/-- A directory was there when it was opened. -/
theorem OpenedFrom.isDirectory (h : OpenedFrom files tree) (hstorage : tree.storage = .directory) :
    files.isDirectory tree.path = true := by
  cases h with
  | directory hdirectory h =>
    obtain ⟨names, rfl, -⟩ := ofDirectory_eq_ok h
    exact hdirectory
  | archive _ h =>
    obtain ⟨opened, -, rfl⟩ := ofArchive_eq_ok h
    cases hstorage

/-- An archive stands under a name of archives. -/
theorem OpenedFrom.location_eq (h : OpenedFrom files tree) {opened : OpenedArchive}
    (hstorage : tree.storage = .archive opened) :
    ∃ directory name, opened.location = directory ++ [name] ∧ NamesArchive name := by
  cases h with
  | directory _ h =>
    obtain ⟨names, rfl, -⟩ := ofDirectory_eq_ok h
    cases hstorage
  | @archive path hextension h =>
    obtain ⟨found, hfound, rfl⟩ := ofArchive_eq_ok h
    cases hstorage
    obtain ⟨location, hresolve, hfound⟩ := Fallible.bind_eq_ok.mp hfound
    obtain ⟨bytes, hread, hfound⟩ := Fallible.bind_eq_ok.mp hfound
    obtain ⟨archive, -, hfound⟩ := Fallible.bind_eq_ok.mp hfound
    cases hfound
    rw [Fallible.mapError_eq_ok] at hresolve hread
    rw [Path.hasExtension] at hextension
    cases hname : path.fileName? with
    | none =>
      rw [hname] at hextension
      cases hextension
    | some name =>
      obtain ⟨directory, rfl⟩ :=
        FileSystem.eq_concat_of_resolve (Path.endsIn_of_read hread hname) hresolve
      refine ⟨directory, name, rfl, ?_⟩
      rw [hname, Option.bind_some] at hextension
      rw [NamesArchive]
      cases hsplit : (Path.splitExtension name).2 with
      | none =>
        rw [hsplit] at hextension
        cases hextension
      | some extension => simpa [hsplit] using hextension

/-- A tree that was opened at any time is kept if its archive is not changed and its directory does
not come into being. -/
theorem OpenedFrom.keeps {earlier : FileSystem} (h : OpenedFrom earlier tree)
    (hdirectory : tree.storage = .directory → later.isDirectory tree.path = true →
      files.isDirectory tree.path = true)
    (harchive : ∀ opened, tree.storage = .archive opened → ¬places opened.location) :
    tree.Keeps places files later := by
  cases h with
  | directory hopened h =>
    obtain ⟨names, rfl, -⟩ := ofDirectory_eq_ok h
    refine ⟨?_, fun release hrelease => (Release.mem_ofNames.mp hrelease).1, hdirectory rfl⟩
    obtain ⟨location, hresolve, -⟩ := FileSystem.exists_resolve_of_isDirectory hopened
    exact (FileSystem.checkPath_eq_ok.mp (FileSystem.resolve_eq_ok.mp hresolve).1).2.2
  | archive _ h =>
    obtain ⟨opened, -, rfl⟩ := ofArchive_eq_ok h
    exact harchive opened rfl

end ClassTree

/-- A path with names below a directory has the file name that the names have. -/
theorem Path.fileName?_join {path : Path} {name last : String} (front : List String)
    (hname : Path.IsRelative name) (hpieces : Text.pieces '/' name = front ++ [last])
    (hlast : Path.IsEntryName last) : (path.join name).fileName? = some last := by
  have hparts : (path.join name).parts = path.leadParts ++ front ++ [last] := by
    rw [Path.parts_join path hname, hpieces, List.append_assoc]
  rw [fileName?_of_parts hparts hlast.1, if_neg hlast.2]

/-- The archive of an installation is one by its extension. -/
theorem Path.hasExtension_installation (home : Path) {archive : Path}
    (h : archive ∈ [home.join "jre/lib/rt.jar", home.join "lib/rt.jar"]) :
    archive.hasExtension ClassTree.archiveExtensions = true := by
  have hentry : Path.IsEntryName "rt.jar" := ⟨by decide, by decide⟩
  have hextension : ∀ archive : Path, archive.fileName? = some "rt.jar" →
      archive.hasExtension ClassTree.archiveExtensions = true := by
    intro archive hname
    rw [hasExtension, hname]
    decide
  simp only [List.mem_cons, List.not_mem_nil, or_false] at h
  obtain rfl | rfl := h
  · exact hextension _ (fileName?_join ["jre", "lib"] (by decide) (by decide) hentry)
  · exact hextension _ (fileName?_join ["lib"] (by decide) (by decide) hentry)

/-- The trees of the modules in a directory were opened from its archives. -/
theorem ModuleDirectory.openedFrom_of_ofPath {path : Path} {directory : ModuleDirectory}
    (h : ofPath files path = .ok directory) :
    ∀ tree ∈ directory.modules.map Module.tree, tree.OpenedFrom files := by
  obtain ⟨-, hopened⟩ := isOpened_of_ofPath h
  obtain ⟨names, hpaths, -, hnames⟩ := hopened.ordered
  rw [List.forall_mem_map]
  intro entry hentry
  obtain ⟨name, hname, hpath⟩ := List.mem_map.mp (hpaths ▸ List.mem_map_of_mem hentry)
  obtain ⟨-, -, -, harchive⟩ := (hnames name).mp hname
  exact .of_isArchive (hpath ▸ harchive) (hopened.opened entry hentry)

/-- The trees of a root for an entry were opened from directories and archives. -/
theorem SearchPath.openedFrom_of_rootFor? {environment : Environment} {entry : Entry} {root : Root}
    (h : rootFor? files environment entry = .ok (some root)) :
    ∀ tree ∈ root.trees, tree.OpenedFrom files := by
  cases entry with
  | classes place =>
    obtain ⟨tree, rfl, ⟨hdirectory, htree⟩ | ⟨harchive, htree⟩⟩ := Root.ofClasses?_eq_some h
    · simpa [Root.trees] using .directory hdirectory htree
    · simpa [Root.trees] using .of_isArchive harchive htree
  | modules place =>
    obtain ⟨directory, rfl, hdirectory⟩ | ⟨tree, rfl, harchive, htree⟩ := Root.ofModules?_eq_some h
    · exact ModuleDirectory.openedFrom_of_ofPath hdirectory
    · simpa [Root.trees] using .of_isArchive harchive htree
  | installation home =>
    rw [rootFor?] at h
    split at h
    · cases h
    · obtain ⟨-, directory, hdirectory, rfl⟩ | ⟨-, archive, tree, harchive, htree, rfl⟩ :=
        Root.ofInstallation?_eq_some h
      · exact ModuleDirectory.openedFrom_of_ofPath hdirectory
      · have hextension := Path.hasExtension_installation _ (List.mem_of_find?_eq_some harchive)
        simpa [Root.trees] using .archive hextension htree

/-- The trees of a search path were opened from directories and archives. -/
theorem SearchPath.openedFrom_of_ofEntries {path : SearchPath} {environment : Environment}
    {entries : List Entry} (h : ofEntries files environment entries = .ok path) :
    ∀ tree ∈ path.trees, tree.OpenedFrom files := by
  obtain ⟨roots, hroots, h⟩ := Fallible.bind_eq_ok.mp h
  cases h
  intro tree htree
  obtain ⟨root, hroot, htree⟩ := List.mem_flatMap.mp htree
  obtain ⟨found, hfound, rfl⟩ := List.mem_filterMap.mp hroot
  have hopened : ∀ found ∈ roots, ∀ root, found = some root →
      ∀ tree ∈ root.trees, tree.OpenedFrom files := by
    refine Fallible.forall_mem_right (Fallible.mapM_eq_ok.mp hroots) ?_
    rintro entry found hentry root rfl
    exact openedFrom_of_rootFor? hentry
  exact hopened (some root) hfound root rfl tree htree

/-- The directories of a search path are there when it is opened. -/
theorem SearchPath.isDirectory_of_ofEntries {path : SearchPath} {environment : Environment}
    {entries : List Entry} (h : ofEntries files environment entries = .ok path) :
    ∀ tree ∈ path.trees, tree.storage = .directory → files.isDirectory tree.path = true :=
  fun tree htree => (openedFrom_of_ofEntries h tree htree).isDirectory

end NativeHeaders
