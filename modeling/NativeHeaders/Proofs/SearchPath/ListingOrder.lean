import NativeHeaders.Proofs.FileSystem.Relisting
import NativeHeaders.Proofs.SearchPath.Packing
import NativeHeaders.Proofs.SearchPath.Stability

/-! # Results that do not depend on listings

Directories list their entries in an order that the system chooses, and an archive lists its files in
the order of its directory. In four places such a list is gone through: stars in class paths are
replaced by the archives of a directory, directories of modules are opened, and the releases with
versions are looked up in a directory or in an archive. None of the four lets the order through
(`results_eq_of_relisted`): file names are sorted before they are used, and of the names of versions
only the set counts. -/

namespace NativeHeaders

/-! ### Archives -/

namespace Archive

variable {archive other : Archive} {bytes bytes' : ByteArray} {name : String}

/-- Two archives with the same files, which list them in different orders perhaps. -/
structure SameFiles (archive : Archive) (bytes : ByteArray) (other : Archive) (bytes' : ByteArray) :
    Prop where
  /-- A name leads to the same entry. -/
  find? : ∀ name, archive.find? name = other.find? name
  /-- The entry has the same content. -/
  content? : ∀ name entry, archive.find? name = some entry →
    entry.content? bytes = entry.content? bytes'

/-- An archive has the same files as itself. -/
theorem SameFiles.refl (archive : Archive) (bytes : ByteArray) :
    archive.SameFiles bytes archive bytes := ⟨fun _ => rfl, fun _ _ _ => rfl⟩

/-- The names in an archive are those under which it finds an entry. -/
theorem mem_names_iff : name ∈ archive.names ↔ (archive.find? name).isSome := by
  unfold names Archive.find?
  rw [List.find?_isSome, List.mem_map]
  simp

/-- **What counts as another order**: the entries in any order, if there are not two of one name. -/
theorem SameFiles.of_perm (h : archive.entries.Perm other.entries) (hnodup : archive.names.Nodup)
    (hcontent : ∀ entry ∈ archive.entries, entry.content? bytes = entry.content? bytes') :
    archive.SameFiles bytes other bytes' := by
  refine ⟨fun name => ?_, fun name entry hentry => ?_⟩
  · have hreverse : archive.entries.reverse.Perm other.entries.reverse :=
      (archive.entries.reverse_perm.trans h).trans other.entries.reverse_perm.symm
    unfold Archive.find?
    rw [List.find?_eq_findSome?_guard, List.find?_eq_findSome?_guard]
    refine findSome?_eq_of_perm hreverse fun first hfirst second hsecond hsome hsome' => ?_
    have hname : ∀ entry : Entry, (Option.guard (fun entry => decide (entry.name = name))
        entry).isSome → entry.name = name := by
      intro entry hentry
      simpa [Option.isSome_guard] using hentry
    exact List.inj_on_of_nodup_map hnodup (List.mem_reverse.mp hfirst) (List.mem_reverse.mp hsecond)
      ((hname _ hsome).trans (hname _ hsome').symm)
  · exact hcontent entry (OpenedArchive.mem_entries_of_find? hentry).1

/-- Archives with the same files have the same names. -/
theorem SameFiles.mem_names (h : archive.SameFiles bytes other bytes') :
    name ∈ archive.names ↔ name ∈ other.names := by
  rw [mem_names_iff, mem_names_iff, h.find? name]

/-- A name is refused in both archives, or leads to one entry, with one content, in both. -/
theorem SameFiles.readable?_sameOutcome (h : archive.SameFiles bytes other bytes')
    (name : String) :
    Fallible.SameOutcome (fun entry entry' => entry = entry' ∧
        ∀ found, entry = some found → found.content? bytes = found.content? bytes')
      (archive.readable? name) (other.readable? name) := by
  have hreadable : archive.readable? name = other.readable? name := by
    rw [readable?, readable?, h.find? name]
  rw [← hreadable]
  cases hentry : archive.readable? name with
  | error cause => exact .error cause
  | ok entry =>
    have hfind := OpenedArchive.readable?_eq_ok hentry
    exact .ok ⟨rfl, fun found hfound => h.content? name found (hfind.trans hfound)⟩

/-- The bytes of two archives with the same files. -/
def Relisted (bytes bytes' : ByteArray) : Prop :=
  ∃ archive other, ofBytes bytes = .ok archive ∧ ofBytes bytes' = .ok other ∧
    archive.SameFiles bytes other bytes'

end Archive

/-- Files with this name are read as they are: class files, and the manifests of directories. -/
def IsReadAsIs (name : String) : Prop := NamesClassFile name ∨ name = "MANIFEST.MF"

instance (name : String) : Decidable (IsReadAsIs name) := inferInstanceAs (Decidable (_ ∨ _))

/-- The contents are equal, or those of an archive that lists its files in another order. -/
def RelistedContent (location : Location) (content other : ByteArray) : Prop :=
  content = other ∨
    (∀ name, location.getLast? = some name → ¬IsReadAsIs name) ∧ Archive.Relisted content other

/-- A file that is read as it is has the same content. -/
theorem RelistedContent.eq {directory : Location} {name : String} {content other : ByteArray}
    (h : RelistedContent (directory ++ [name]) content other) (hname : IsReadAsIs name) :
    content = other := by
  obtain heq | ⟨hplain, -⟩ := h
  · exact heq
  · exact absurd hname (hplain name List.getLast?_concat)

/-- If one of the contents is an archive, so is the other. -/
theorem RelistedContent.ofBytes_sameOutcome {location : Location} {content other : ByteArray}
    (h : RelistedContent location content other) :
    Fallible.SameOutcome (fun archive archive' => archive.SameFiles content archive' other)
      (Archive.ofBytes content) (Archive.ofBytes other) := by
  obtain rfl | ⟨-, archive, archive', hcontent, hother, hfiles⟩ := h
  · refine (Fallible.SameOutcome.of_eq rfl).mono ?_
    rintro archive _ rfl
    exact .refl archive content
  · rw [hcontent, hother]
    exact .ok hfiles

namespace OpenedArchive

variable {files others : FileSystem} {opened other : OpenedArchive}

/-- Two opened archives with the same files below the same base. -/
structure Alike (opened other : OpenedArchive) : Prop where
  /-- The classes stand below the same directory. -/
  base : opened.base = other.base
  /-- The files are the same. -/
  files : opened.archive.SameFiles opened.opened other.archive other.opened

/-- An archive is opened alike in relisted file systems, or it cannot be opened in either for the
same reason. -/
theorem ofFile_sameOutcome (h : files.Relisted RelistedContent others) (path : Path) :
    Fallible.SameOutcome Alike (ofFile files path) (ofFile others path) := by
  unfold ofFile
  rw [← h.resolve_eq path]
  refine .bind_same fun location _ => ?_
  refine ((h.read_sameOutcome path).mapError _).bind ?_
  rintro content content' - - ⟨location', -, hcontent⟩
  refine (hcontent.ofBytes_sameOutcome.mapError _).bind fun archive archive' _ _ hfiles => ?_
  exact .ok ⟨rfl, hfiles⟩

/-- Archives that are alike have the same manifest. -/
theorem Alike.manifest?_eq (h : Alike opened other) (path : Path) :
    opened.manifest? path = other.manifest? path := by
  unfold manifest?
  rw [← h.base]
  refine (((h.files.readable?_sameOutcome _).mapError _).bind ?_).eq
  rintro entry _ - - ⟨rfl, hcontent⟩
  cases entry with
  | none => exact .ok rfl
  | some entry =>
    refine .of_eq ?_
    dsimp only
    rw [hcontent entry rfl]

/-- They have versions for the same names of releases. -/
theorem Alike.mem_versionNames (h : Alike opened other) (version : String) :
    version ∈ opened.versionNames ↔ version ∈ other.versionNames := by
  unfold versionNames
  rw [List.mem_filterMap, List.mem_filterMap, h.base]
  simp only [h.files.mem_names]

/-- As long as the files have the bytes that they had when they were opened, the same is found. -/
theorem Alike.find_eq (h : Alike opened other) (hbytes : opened.bytes files = opened.opened)
    (hbytes' : other.bytes others = other.opened) (path : Path) (name : String) :
    opened.find files path name = other.find others path name := by
  unfold OpenedArchive.find
  dsimp only
  rw [hbytes, hbytes', ← h.base]
  refine (((h.files.readable?_sameOutcome _).mapError _).bind ?_).eq
  rintro entry _ - - ⟨rfl, hcontent⟩
  cases entry with
  | none => exact .ok rfl
  | some entry =>
    refine .of_eq ?_
    dsimp only
    rw [hcontent entry rfl]

end OpenedArchive

/-! ### Files that are read as they are -/

/-- A path joined with names ends in the last of them. -/
theorem Path.endsIn_join_of_pieces (path : Path) {name last : String} {front : List String}
    (hpieces : Text.pieces '/' name = front ++ [last]) (hlast : IsEntryName last) :
    (path.join name).EndsIn last := by
  refine ⟨hlast, ?_⟩
  by_cases hrelative : IsRelative name
  · exact ⟨path.leadParts ++ front, by rw [parts_join path hrelative, hpieces, List.append_assoc]⟩
  · have hjoin : path.join name = ⟨name⟩ := if_pos (not_not.mp hrelative)
    exact ⟨front, by rw [hjoin, parts, hpieces]⟩

/-- The name of a class file leads to an entry of a directory. -/
theorem NamesClassFile.isEntryName {name : String} (h : NamesClassFile name) :
    Path.IsEntryName name :=
  Path.isEntryName_of_mem (h.mem (show 'c' ∈ ".class".toList by decide)) (by decide)

section

variable {files others : FileSystem} (h : files.Relisted RelistedContent others)
include h

/-- A path that ends in the name of a file that is read as it is gives the same content. -/
theorem FileSystem.Relisted.read_eq_of_endsIn {path : Path} {name : String}
    (hpath : path.EndsIn name) (hname : IsReadAsIs name) :
    files.read path = others.read path := by
  refine h.read_eq fun location content other hresolve hcontent => ?_
  obtain ⟨directory, rfl⟩ := FileSystem.eq_concat_of_resolve hpath hresolve
  exact hcontent.eq hname

/-! ### Trees -/

namespace ClassTree

/-- A directory has the same manifest. -/
theorem manifestIn?_eq_of_relisted (path : Path) :
    manifestIn? files path = manifestIn? others path := by
  have hends : (path.join Manifest.path).EndsIn "MANIFEST.MF" :=
    path.endsIn_join_of_pieces (show _ = ["META-INF"] ++ _ by decide) ⟨by decide, by decide⟩
  unfold manifestIn?
  rw [h.read_eq_of_endsIn hends (.inr rfl)]

/-- A directory has versions for the same names of releases, in whatever order. -/
theorem versionNamesIn_sameOutcome (path : Path) :
    Fallible.SameOutcome (fun names names' => ∀ name, name ∈ names ↔ name ∈ names')
      (versionNamesIn files path) (versionNamesIn others path) := by
  have hlist := h.list_sameOutcome (path.join Manifest.versionsPath)
  unfold versionNamesIn
  dsimp only
  revert hlist
  cases files.list (path.join Manifest.versionsPath) <;>
    cases others.list (path.join Manifest.versionsPath) <;> rintro ⟨⟩
  · next cause =>
    cases cause with
    | notFound => exact .ok fun name => Iff.rfl
    | _ => exact .error _
  · next hperm =>
    refine .ok fun name => ?_
    rw [List.mem_filter, List.mem_filter, h.isDirectory_eq, hperm.mem_iff]

/-- **A directory with class files is opened alike.** -/
theorem ofDirectory_eq_of_relisted (path : Path) :
    ofDirectory files path = ofDirectory others path := by
  unfold ofDirectory
  rw [manifestIn?_eq_of_relisted h path]
  refine (Fallible.SameOutcome.bind_same fun manifest _ => ?_).eq
  dsimp only
  split
  · refine (versionNamesIn_sameOutcome h path).bind fun names names' _ _ hnames => ?_
    rw [Release.ofNames_congr hnames]
    exact .of_eq rfl
  · exact .of_eq rfl

end ClassTree

end

/-- Two trees that cannot be told apart by searches for classes, the one in one file system and the
other one in another. -/
structure ClassTree.Alike (files others : FileSystem) (tree other : ClassTree) : Prop where
  /-- They have the same path. -/
  path : tree.path = other.path
  /-- They have versions for the same releases. -/
  releases : tree.releases = other.releases
  /-- They find the same class files. -/
  find : ∀ name : ClassName, tree.find files name.filePath = other.find others name.filePath

/-- Two modules that cannot be told apart. -/
structure Module.Alike (files others : FileSystem) (entry other : Module) : Prop where
  /-- They have the same name. -/
  name : entry.name = other.name
  /-- They have the same classes. -/
  tree : entry.tree.Alike files others other.tree

/-- Two directories of modules that cannot be told apart: their modules are alike one by one. -/
def ModuleDirectory.Alike (files others : FileSystem) (directory other : ModuleDirectory) : Prop :=
  List.Forall₂ (Module.Alike files others) directory.modules other.modules

/-- Two roots that cannot be told apart by searches for classes. -/
def Root.Alike (files others : FileSystem) (root other : Root) : Prop :=
  ∀ name : ClassName, root.find files name = other.find others name

section

variable {files others : FileSystem} (h : files.Relisted RelistedContent others)
include h

namespace ClassTree

/-- A directory is opened alike as a tree of class files. -/
theorem ofDirectory_sameOutcome (path : Path) :
    Fallible.SameOutcome (Alike files others) (ofDirectory files path)
      (ofDirectory others path) := by
  rw [← ofDirectory_eq_of_relisted h path]
  cases hopened : ofDirectory files path with
  | error cause => exact .error cause
  | ok tree =>
    obtain ⟨names, rfl, -⟩ := ofDirectory_eq_ok hopened
    refine .ok ⟨rfl, rfl, fun name => Fallible.findSomeM?_congr fun candidate hcandidate => ?_⟩
    rw [candidates_eq, List.mem_map] at hcandidate
    obtain ⟨lead, -, rfl⟩ := hcandidate
    -- Whatever the candidate is, it ends as the names of class files do.
    obtain ⟨front, last, hpieces, hlast⟩ := ClassName.pieces_fileFor lead name.internal
    have hread := h.read_eq_of_endsIn (path.endsIn_join_of_pieces hpieces hlast.isEntryName)
      (.inl hlast)
    show findBelow files path _ = findBelow others path _
    rw [findBelow_eq, findBelow_eq]
    exact congrArg (fun read : Except IoError ByteArray => Except.ok (read.toOption.map _)) hread

/-- **An archive with class files is opened alike.** -/
theorem ofArchive_sameOutcome (path : Path) :
    Fallible.SameOutcome (Alike files others) (ofArchive files path) (ofArchive others path) := by
  unfold ofArchive
  refine (OpenedArchive.ofFile_sameOutcome h path).bind fun opened other hopened hother halike => ?_
  rw [← halike.manifest?_eq path]
  refine .bind_same fun manifest _ => ?_
  have hreleases : Release.ofNames (if manifest.any Manifest.isMultiRelease then
      opened.versionNames else []) = Release.ofNames (if manifest.any Manifest.isMultiRelease then
      other.versionNames else []) := by
    apply Release.ofNames_congr
    intro name
    split
    · exact halike.mem_versionNames name
    · rfl
  refine .ok ⟨rfl, hreleases, fun name => ?_⟩
  have hbytes := (OpenedArchive.ofFile_eq_ok hopened).2.2
  have hbytes' := (OpenedArchive.ofFile_eq_ok hother).2.2
  dsimp only [ClassTree.find, candidates]
  rw [hreleases]
  exact Fallible.findSomeM?_congr fun candidate _ => halike.find_eq hbytes hbytes' path candidate

end ClassTree

/-! ### Roots -/

/-- **A directory of modules is opened alike**, with the same modules in the same order. -/
theorem ModuleDirectory.ofPath_sameOutcome (path : Path) :
    Fallible.SameOutcome (Alike files others) (ofPath files path) (ofPath others path) := by
  unfold ofPath
  rw [h.filesIn_eq]
  refine .bind_same fun archives _ => ?_
  have hmodule : ∀ archive : Path, Fallible.SameOutcome (Module.Alike files others)
      (do return { name := archive.stem, tree := ← ClassTree.ofArchive files archive })
      (do return { name := archive.stem, tree := ← ClassTree.ofArchive others archive }) := by
    intro archive
    refine (ClassTree.ofArchive_sameOutcome h archive).bind fun tree tree' _ _ halike => ?_
    exact .ok ⟨rfl, halike⟩
  have hmodules := Fallible.SameOutcome.mapM fun archive (_ : archive ∈ archives) =>
    hmodule archive
  exact hmodules.bind fun modules modules' _ _ halike => .ok halike

end

namespace ModuleDirectory

variable {files others : FileSystem} {directory other : ModuleDirectory}

/-- Under a name there are alike modules, or there is none on either side. -/
theorem find?_modules_rel {modules modules' : List Module}
    (h : List.Forall₂ (Module.Alike files others) modules modules') (hint : String) :
    Option.Rel (Module.Alike files others) (modules.find? (·.name = hint))
      (modules'.find? (·.name = hint)) := by
  induction h with
  | nil => exact .none
  | cons hentry _ ih =>
    rw [List.find?_cons, List.find?_cons, ← hentry.name]
    split
    · exact .some hentry
    · exact ih

/-- In directories of modules that are alike, a class is looked for in modules that are alike. -/
theorem Alike.searched (h : directory.Alike files others other) (name : ClassName) :
    List.Forall₂ (Module.Alike files others) (directory.searched name) (other.searched name) := by
  unfold ModuleDirectory.searched
  cases name.moduleHint with
  | none => exact h
  | some hint =>
    have hhint := find?_modules_rel h hint
    rw [Option.bind_some, Option.bind_some]
    revert hhint
    cases directory.modules.find? (·.name = hint) <;>
      cases other.modules.find? (·.name = hint) <;> rintro ⟨⟩
    · exact h
    · next hentry => exact .cons hentry .nil

/-- It is found in both or in neither, with the same content. -/
theorem Alike.find_eq (h : directory.Alike files others other) (name : ClassName) :
    directory.find files name = other.find others name := by
  apply Fallible.findSomeM?_forall₂
  exact (h.searched name).imp fun entry entry' hentry => hentry.tree.find name

/-- What is known of the modules without a search: for each one its name, its path and the releases
with versions. -/
def listing (directory : ModuleDirectory) : List (String × Path × List Nat) :=
  directory.modules.map fun entry => (entry.name, entry.tree.path, entry.tree.releases)

/-- They list the same modules in the same order. -/
theorem Alike.listing_eq (h : directory.Alike files others other) :
    directory.listing = other.listing := by
  unfold listing
  rw [← List.forall₂_eq_eq_eq, List.forall₂_map_left_iff, List.forall₂_map_right_iff]
  refine h.imp fun entry entry' hentry => ?_
  rw [hentry.name, hentry.tree.path, hentry.tree.releases]

end ModuleDirectory

section

variable {files others : FileSystem} (h : files.Relisted RelistedContent others)
include h

/-- The same paths are archives. -/
theorem ClassTree.isArchive_eq_of_relisted (path : Path) :
    isArchive files path = isArchive others path := by
  rw [isArchive, isArchive, h.isFile_eq]

namespace Root

/-- An entry of a class path is opened alike. -/
theorem ofClasses?_sameOutcome (path : Path) :
    Fallible.SameOutcome (Option.Rel (Alike files others)) (ofClasses? files path)
      (ofClasses? others path) := by
  unfold ofClasses?
  rw [h.isDirectory_eq, ClassTree.isArchive_eq_of_relisted h]
  split
  · refine (ClassTree.ofDirectory_sameOutcome h path).bind fun tree tree' _ _ halike => ?_
    exact .ok (.some halike.find)
  · split
    · refine (ClassTree.ofArchive_sameOutcome h path).bind fun tree tree' _ _ halike => ?_
      exact .ok (.some halike.find)
    · exact .ok .none

/-- An entry of a module path is opened alike. -/
theorem ofModules?_sameOutcome (path : Path) :
    Fallible.SameOutcome (Option.Rel (Alike files others)) (ofModules? files path)
      (ofModules? others path) := by
  unfold ofModules?
  rw [h.isDirectory_eq, ClassTree.isArchive_eq_of_relisted h]
  split
  · refine (ModuleDirectory.ofPath_sameOutcome h path).bind fun _ _ _ _ halike => ?_
    exact .ok (.some halike.find_eq)
  · split
    · refine (ClassTree.ofArchive_sameOutcome h path).bind fun tree tree' _ _ halike => ?_
      exact .ok (.some halike.find)
    · exact .ok .none

/-- An installation is opened alike. -/
theorem ofInstallation?_sameOutcome (home : Path) :
    Fallible.SameOutcome (Option.Rel (Alike files others)) (ofInstallation? files home)
      (ofInstallation? others home) := by
  have hisFile : files.isFile = others.isFile := funext h.isFile_eq
  unfold ofInstallation?
  rw [h.isDirectory_eq, hisFile]
  split
  · refine (ModuleDirectory.ofPath_sameOutcome h _).bind fun _ _ _ _ halike => ?_
    exact .ok (.some halike.find_eq)
  · split
    · exact .ok .none
    · next archive _ =>
      refine (ClassTree.ofArchive_sameOutcome h archive).bind fun _ _ _ _ halike => ?_
      exact .ok (.some halike.find)

end Root

/-- The environment leads to the same installation. -/
theorem Installation.home?_eq_of_relisted (environment : Environment) :
    home? files environment = home? others environment := by
  have hexists : files.exists? = others.exists? := funext h.exists?_eq
  have hisExecutable : files.isExecutable = others.isExecutable := funext h.isExecutable_eq
  simp only [home?, namedHome?, commandHome?, command?, hexists, hisExecutable, h.resolve_eq]

/-! ### Search paths -/

namespace SearchPath

/-- Every entry is opened alike. -/
theorem rootFor?_sameOutcome (environment : Environment) (entry : Entry) :
    Fallible.SameOutcome (Option.Rel (Root.Alike files others)) (rootFor? files environment entry)
      (rootFor? others environment entry) := by
  cases entry with
  | classes path => exact Root.ofClasses?_sameOutcome h path
  | modules path => exact Root.ofModules?_sameOutcome h path
  | installation home =>
    rw [rootFor?, rootFor?, Installation.home?_eq_of_relisted h]
    cases home.or (Installation.home? others environment) with
    | none => exact .ok .none
    | some home => exact Root.ofInstallation?_sameOutcome h home

/-- **A search path is opened alike**, and then finds the same for every class. -/
theorem ofEntries_sameOutcome (environment : Environment) (entries : List Entry) :
    Fallible.SameOutcome
      (fun path path' => ∀ name, path.resolve files name = path'.resolve others name)
      (ofEntries files environment entries) (ofEntries others environment entries) := by
  have hroots := Fallible.SameOutcome.mapM fun entry (_ : entry ∈ entries) =>
    rootFor?_sameOutcome h environment entry
  refine hroots.bind fun roots roots' _ _ halike => .ok fun name => ?_
  have hfound : List.Forall₂ (Root.Alike files others) (roots.filterMap id)
      (roots'.filterMap id) := List.rel_filterMap (fun _ _ hroot => hroot) halike
  exact Fallible.findSomeM?_forall₂ (hfound.imp fun _ _ hroot => hroot name)

end SearchPath

end

namespace SearchPath

/-- **Nothing depends on the order of listings.** Stars in class paths stand for the same archives in
the same order; directories and archives are opened with versions for the same releases; directories
of modules are opened with the same modules in the same order; and a search path for whatever
entries finds the same class file for every class. What fails in one file system fails in the other
one in the same way. -/
theorem results_eq_of_relisted {files others : FileSystem}
    (h : files.Relisted RelistedContent others) :
    (∀ written, Expansion.classPath files written = Expansion.classPath others written) ∧
      (∀ path, ClassTree.ofDirectory files path = ClassTree.ofDirectory others path) ∧
      (∀ path, (ClassTree.ofArchive files path).map ClassTree.releases =
        (ClassTree.ofArchive others path).map ClassTree.releases) ∧
      (∀ path, (ModuleDirectory.ofPath files path).map ModuleDirectory.listing =
        (ModuleDirectory.ofPath others path).map ModuleDirectory.listing) ∧
      ∀ environment entries name,
        (ofEntries files environment entries).bind (·.resolve files name) =
          (ofEntries others environment entries).bind (·.resolve others name) := by
  refine ⟨fun written => ?_, ClassTree.ofDirectory_eq_of_relisted h, fun path => ?_, fun path => ?_,
    fun environment entries name => ?_⟩
  · have hentry : Expansion.classPathEntry files = Expansion.classPathEntry others := by
      funext entry
      simp only [Expansion.classPathEntry, Expansion.archivesIn, h.filesIn_eq]
    rw [Expansion.classPath, Expansion.classPath, hentry]
  · exact (ClassTree.ofArchive_sameOutcome h path).map fun _ _ halike => halike.releases
  · exact (ModuleDirectory.ofPath_sameOutcome h path).map fun _ _ halike => halike.listing_eq
  · refine ((ofEntries_sameOutcome h environment entries).bind fun _ _ _ _ halike => ?_).eq
    exact .of_eq (halike name)

end SearchPath

/-! ### Two listings of one library

A directory with two archives, next to a directory with versions of a class. The other file system
lists everything from the last entry on, the files in one of the archives too. -/

namespace FileTree

/-- An archive with the files of a tree, which are not packed. The records of its directory stand in
the order that is given. -/
def storedInOrder (order : List (List UInt8) → List (List UInt8)) (tree : FileTree) : ByteArray :=
  let (contents, records) := tree.foldl (fun (contents, records) (name, content) =>
    let (file, record) := storedFile contents.length name content
    (contents ++ file, records ++ [record])) ([], [])
  let directory := (order records).flatten
  let ending := Generator.record [(4, Archive.Placement.endSignature), (2, 0), (2, 0),
    (2, tree.length), (2, tree.length), (4, directory.length), (4, contents.length), (2, 0)]
  ⟨(contents ++ directory ++ ending).toArray⟩

/-- The files in the archive. -/
def twoClasses : FileTree := [("A.class", ⟨#[1]⟩), ("B.class", ⟨#[2]⟩)]

/-- Their entries. -/
def twoEntries : List Archive.Entry :=
  [{ name := "A.class", isEncrypted := false, isLink := false, method := 0, checksum := 2768625435,
     packedSize := 1, size := 1, localStart := 0, contentStart := 37 },
   { name := "B.class", isEncrypted := false, isLink := false, method := 0, checksum := 1007455905,
     packedSize := 1, size := 1, localStart := 38, contentStart := 75 }]

/-- The directories, with the archives in the order of their names. -/
def library : FileSystem where
  nodes := SearchPath.versionedClasses.nodes ++
    [(["lib"], .directory), (["lib", "a.jar"], .file (storedInOrder id twoClasses) false),
      (["lib", "b.jar"], .file ⟨#[]⟩ false)]
  workingDirectory := []

/-- The directories, with everything in the opposite order. -/
def relistedLibrary : FileSystem where
  nodes := List.reverse (SearchPath.versionedClasses.nodes ++
    [(["lib"], .directory), (["lib", "a.jar"], .file (storedInOrder List.reverse twoClasses) false),
      (["lib", "b.jar"], .file ⟨#[]⟩ false)])
  workingDirectory := []

/-- The archive is the same one, with its directory in the opposite order. -/
theorem relisted_twoClasses :
    Archive.Relisted (storedInOrder id twoClasses) (storedInOrder List.reverse twoClasses) := by
  have hfirst : Archive.entries? (storedInOrder id twoClasses) = some twoEntries := by
    decide +kernel
  have hsecond : Archive.entries? (storedInOrder List.reverse twoClasses) =
      some twoEntries.reverse := by
    decide +kernel
  have hcontent : ∀ entry ∈ twoEntries, entry.content? (storedInOrder id twoClasses) =
      entry.content? (storedInOrder List.reverse twoClasses) := by
    decide +kernel
  refine ⟨⟨twoEntries⟩, ⟨twoEntries.reverse⟩, ?_, ?_, .of_perm ?_ (by decide) hcontent⟩
  · rw [Archive.ofBytes, hfirst]
  · rw [Archive.ofBytes, hsecond]
  · exact twoEntries.reverse_perm.symm

/-- The second file system lists what is in the first one. -/
theorem relisted_library : library.Relisted RelistedContent relistedLibrary := by
  have hname : ∀ name, ["lib", "a.jar"].getLast? = some name → ¬IsReadAsIs name := by
    rintro name ⟨⟩
    decide
  have hsame : ∀ entry, FileSystem.AlikeNodes RelistedContent entry entry := by
    rintro ⟨location, node⟩
    refine ⟨rfl, ?_⟩
    cases node with
    | directory => exact .directory
    | file content => exact .file (.inl rfl)
  have harchive : FileSystem.AlikeNodes RelistedContent
      (["lib", "a.jar"], .file (storedInOrder id twoClasses) false)
      (["lib", "a.jar"], .file (storedInOrder List.reverse twoClasses) false) :=
    ⟨rfl, .file (.inr ⟨hname, relisted_twoClasses⟩)⟩
  have halike : List.Forall₂ (FileSystem.AlikeNodes RelistedContent) library.nodes
      relistedLibrary.nodes.reverse := by
    unfold library relistedLibrary
    rw [List.reverse_reverse]
    exact List.rel_append (List.forall₂_same.mpr fun entry _ => hsame entry)
      (.cons (hsame _) (.cons harchive (.cons (hsame _) .nil)))
  exact FileSystem.relisted_of_perm rfl (by decide) halike (List.reverse_perm _)

/-- The archives come in the order of their names, the latest release first, and a class is found in
the archive. -/
theorem results_relistedLibrary :
    library.Relisted RelistedContent relistedLibrary ∧
      library.entriesAt ["lib"] = ["a.jar", "b.jar"] ∧
      relistedLibrary.entriesAt ["lib"] = ["b.jar", "a.jar"] ∧
      Expansion.classPath relistedLibrary ["lib/*"] = [⟨"lib/a.jar"⟩, ⟨"lib/b.jar"⟩] ∧
      (ClassTree.ofDirectory relistedLibrary ⟨"cp"⟩).map ClassTree.releases = .ok [11, 9] ∧
      ((SearchPath.ofEntries relistedLibrary [] [.classes ⟨"lib/a.jar"⟩]).bind
        (·.resolve relistedLibrary { internal := "A" })).toOption.map
          (·.map ClassSource.bytes) = some (some ⟨#[1]⟩) := by
  obtain ⟨hexpanded, hdirectory, -, -, hresolve⟩ :=
    SearchPath.results_eq_of_relisted relisted_library
  have hlist : library.list ⟨"lib"⟩ = .ok ["a.jar", "b.jar"] := by rfl
  have hfiles : library.filesIn ⟨"lib"⟩ ["jar"] = .ok [⟨"lib/a.jar"⟩, ⟨"lib/b.jar"⟩] := by
    rw [FileSystem.filesIn_of_pairwise hlist (by decide)]
    rfl
  have hpaths : Expansion.classPath library ["lib/*"] = [⟨"lib/a.jar"⟩, ⟨"lib/b.jar"⟩] := by
    show ((library.filesIn ⟨"lib"⟩ ["jar"]).toOption.getD []) ++ [] = _
    rw [hfiles]
    rfl
  have hreleases : (ClassTree.ofDirectory library ⟨"cp"⟩).map ClassTree.releases = .ok [11, 9] := by
    rfl
  have hfound : ((SearchPath.ofEntries library [] [.classes ⟨"lib/a.jar"⟩]).bind
      (·.resolve library { internal := "A" })).toOption.map
        (·.map ClassSource.bytes) = some (some ⟨#[1]⟩) := by
    decide +kernel
  exact ⟨relisted_library, by decide, by decide, (hexpanded _).symm.trans hpaths,
    hdirectory _ ▸ hreleases, hresolve [] _ _ ▸ hfound⟩

end FileTree

end NativeHeaders
