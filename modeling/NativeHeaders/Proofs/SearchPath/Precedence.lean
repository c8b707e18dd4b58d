import NativeHeaders.Proofs.SearchPath.Packing

/-! # Which class file is found

Three orders decide which of several class files is found: the roots of the search path come in the
order in which they were given, the archives of a module directory in the order of their file names,
and in each directory or archive the version for the latest release comes first. `Root.Gives` tells
from the file system alone what is found in the place that a root stands for, and
`resolve_eq_first` that a search over opened roots gives what the first of their places holds. -/

namespace NativeHeaders

/-! ### Module directories -/

/-- The place is the first one in the list that passes the test. -/
def IsFirst {α : Type} (test : α → Prop) (places : List α) (place : α) : Prop :=
  ∃ before after, places = before ++ place :: after ∧ (∀ earlier ∈ before, ¬test earlier) ∧
    test place

section IsFirst

variable {α β : Type}

/-- What is held first is held by the first place that holds anything. -/
theorem firstOf_iff_isFirst {holds : α → ByteArray → Prop} {places : List α} {content : ByteArray} :
    FirstOf holds places content ↔
      ∃ place, IsFirst (fun place => ∃ content, holds place content) places place ∧
        holds place content := by
  constructor
  · rintro ⟨before, place, after, hplaces, hbefore, hholds⟩
    exact ⟨place, ⟨before, after, hplaces,
      fun earlier hearlier => not_exists.mpr (hbefore earlier hearlier), content, hholds⟩, hholds⟩
  · rintro ⟨place, ⟨before, after, hplaces, hbefore, -⟩, hholds⟩
    exact ⟨before, place, after, hplaces,
      fun earlier hearlier => not_exists.mp (hbefore earlier hearlier), hholds⟩

/-- The function `find?` finds the first place that passes a test. -/
theorem find?_eq_some_iff_isFirst {test : α → Bool} {places : List α} {place : α} :
    places.find? test = some place ↔ IsFirst (test · = true) places place := by
  rw [List.find?_eq_some_iff_append]
  constructor
  · rintro ⟨htest, before, after, hplaces, hbefore⟩
    exact ⟨before, after, hplaces, by simpa using hbefore, htest⟩
  · rintro ⟨before, after, hplaces, hbefore, htest⟩
    exact ⟨htest, before, after, hplaces, by simpa using hbefore⟩

/-- The first of places that stand for others stands for the first of these. -/
theorem isFirst_map {change : β → α} {test : α → Prop} {places : List β} {place : α} :
    IsFirst test (places.map change) place ↔
      ∃ origin, change origin = place ∧ IsFirst (fun origin => test (change origin)) places origin := by
  constructor
  · rintro ⟨before, after, hplaces, hbefore, htest⟩
    obtain ⟨front, back, rfl, rfl, hback⟩ := List.map_eq_append_iff.mp hplaces
    obtain ⟨origin, rest, rfl, rfl, -⟩ := List.map_eq_cons_iff.mp hback
    exact ⟨origin, rfl, front, rest, rfl, by simpa using hbefore, htest⟩
  · rintro ⟨origin, rfl, front, rest, rfl, hfront, htest⟩
    exact ⟨front.map change, rest.map change, by simp, by simpa using hfront, htest⟩

/-- In a list in order, the first one that passes a test is the least one that does. -/
theorem isFirst_iff_of_pairwise {test : String → Prop} {names : List String} {name : String}
    (h : names.Pairwise (· ≤ ·)) :
    IsFirst test names name ↔
      name ∈ names ∧ test name ∧ ∀ other ∈ names, test other → name ≤ other := by
  constructor
  · rintro ⟨before, after, rfl, hbefore, htest⟩
    refine ⟨by simp, htest, fun other hother hpasses => ?_⟩
    rw [List.mem_append, List.mem_cons] at hother
    obtain hfront | rfl | hback := hother
    · exact absurd hpasses (hbefore other hfront)
    · exact String.le_refl other
    · exact List.rel_of_pairwise_cons (List.pairwise_append.mp h).2.1 hback
  · rintro ⟨hmem, htest, hleast⟩
    obtain ⟨before, after, rfl, hnew⟩ := List.eq_append_cons_of_mem hmem
    refine ⟨before, after, rfl, fun earlier hearlier hpasses => ?_, htest⟩
    -- An earlier name that passes would be the same one.
    have hle : earlier ≤ name := (List.pairwise_append.mp h).2.2 earlier hearlier name (by simp)
    have hge : name ≤ earlier := hleast earlier (by simp [hearlier]) hpasses
    exact hnew (String.le_antisymm hle hge ▸ hearlier)

end IsFirst

/-- A directory has an archive with the given file name. -/
def IsArchiveIn (files : FileSystem) (directory : Path) (name : String) : Prop :=
  ∃ names, files.list directory = .ok names ∧ name ∈ names ∧
    ClassTree.isArchive files (directory.join name) = true

/-- Of the archives in a directory that pass a test, the one whose file name comes first. -/
def IsFirstArchive (files : FileSystem) (directory : Path) (test : Path → Prop) (archive : Path) :
    Prop :=
  ∃ name, archive = directory.join name ∧ IsArchiveIn files directory name ∧ test archive ∧
    ∀ other, IsArchiveIn files directory other → test (directory.join other) → name ≤ other

/-- There is at most one first archive in a directory. -/
theorem IsFirstArchive.unique {files : FileSystem} {directory : Path} {test : Path → Prop}
    {first second : Path} (hfirst : IsFirstArchive files directory test first)
    (hsecond : IsFirstArchive files directory test second) : first = second := by
  obtain ⟨name, rfl, hname, htest, hleast⟩ := hfirst
  obtain ⟨other, rfl, hother, hpasses, hleast'⟩ := hsecond
  rw [String.le_antisymm (hleast other hother hpasses) (hleast' name hname htest)]

/-- What a module directory gives for a class: if the name asks for a module, and there is an
archive for it, what the first such archive holds, and otherwise what the first archive holds that
holds the class. -/
inductive ModulesGive (files : FileSystem) (directory : Path) (name : ClassName) :
    ByteArray → Prop where
  /-- The module that the name asks for decides. -/
  | asked {hint : String} {archive : Path} {content : ByteArray}
      (hhint : name.moduleHint = some hint)
      (hfirst : IsFirstArchive files directory (fun archive => archive.stem = hint) archive)
      (hgives : (Holdings.ofArchive files archive).Gives name.filePath content) :
      ModulesGive files directory name content
  /-- No archive is the module that the name asks for, or it asks for none. -/
  | any {archive : Path} {content : ByteArray}
      (hhint : ∀ hint, name.moduleHint = some hint → ∀ other, IsArchiveIn files directory other →
        (directory.join other).stem ≠ hint)
      (hfirst : IsFirstArchive files directory
        (fun archive => ∃ content, (Holdings.ofArchive files archive).Gives name.filePath content)
        archive)
      (hgives : (Holdings.ofArchive files archive).Gives name.filePath content) :
      ModulesGive files directory name content

/-- The first archive in a directory comes first in the list of its archives in the order of their
names. -/
theorem isFirstArchive_iff {files : FileSystem} {directory : Path} {names : List String}
    {test : Path → Prop} {archive : Path} (hsorted : names.Pairwise (· ≤ ·))
    (hnames : ∀ name, name ∈ names ↔ IsArchiveIn files directory name) :
    IsFirst test (names.map directory.join) archive ↔
      IsFirstArchive files directory test archive := by
  rw [isFirst_map]
  constructor
  · rintro ⟨name, rfl, hfirst⟩
    obtain ⟨hmem, htest, hleast⟩ := (isFirst_iff_of_pairwise hsorted).mp hfirst
    exact ⟨name, rfl, (hnames name).mp hmem, htest,
      fun other hother => hleast other ((hnames other).mpr hother)⟩
  · rintro ⟨name, rfl, hmem, htest, hleast⟩
    exact ⟨name, rfl, (isFirst_iff_of_pairwise hsorted).mpr ⟨(hnames name).mpr hmem, htest,
      fun other hother => hleast other ((hnames other).mp hother)⟩⟩

namespace ModuleDirectory

variable {files : FileSystem} {path : Path} {directory : ModuleDirectory} {name : ClassName}

/-- The archives in a directory, in the order of their file names. -/
theorem filesIn_eq_ok {extensions : List String} {paths : List Path}
    (h : files.filesIn path extensions = .ok paths) :
    ∃ listed names : List String, files.list path = .ok listed ∧ paths = names.map path.join ∧
      names.Pairwise (· ≤ ·) ∧
      ∀ name, name ∈ names ↔ name ∈ listed ∧ (files.isFile (path.join name) &&
        (path.join name).hasExtension extensions) = true := by
  obtain ⟨listed, hlisted, h⟩ := Fallible.bind_eq_ok.mp h
  cases h
  refine ⟨listed, _, hlisted, List.filter_map, ?_, fun name => ?_⟩
  · exact (FileSystem.pairwise_mergeSort_names listed).sublist List.filter_sublist
  · rw [List.mem_filter, List.mem_mergeSort]
    rfl

/-- The modules of an opened directory are its archives. -/
structure IsOpened (directory : ModuleDirectory) (files : FileSystem) : Prop where
  /-- There is a module for each archive, in the order of the file names. -/
  ordered : ∃ names : List String, directory.modules.map (·.tree.path) = names.map directory.path.join ∧
    names.Pairwise (· ≤ ·) ∧ ∀ name, name ∈ names ↔ IsArchiveIn files directory.path name
  /-- A module is named for its file. -/
  named : ∀ entry ∈ directory.modules, entry.name = entry.tree.path.stem
  /-- Its classes are those of the archive. -/
  opened : ∀ entry ∈ directory.modules,
    ClassTree.ofArchive files entry.tree.path = .ok entry.tree

/-- The modules of a directory are its archives when it is opened. -/
theorem isOpened_of_ofPath (h : ofPath files path = .ok directory) :
    directory.path = path ∧ directory.IsOpened files := by
  obtain ⟨archives, harchives, h⟩ := Fallible.bind_eq_ok.mp h
  obtain ⟨modules, hmodules, h⟩ := Fallible.bind_eq_ok.mp h
  cases h
  obtain ⟨listed, names, hlisted, rfl, hsorted, hmem⟩ :=
    filesIn_eq_ok (Fallible.mapError_eq_ok.mp harchives)
  -- Each module was opened from the archive in the same place of the list.
  have hopened : List.Forall₂ (fun archive (entry : Module) => entry.tree.path = archive ∧
      entry.name = archive.stem ∧ ClassTree.ofArchive files archive = .ok entry.tree)
      (names.map path.join) modules := by
    refine (Fallible.mapM_eq_ok.mp hmodules).imp fun archive entry hentry => ?_
    obtain ⟨tree, htree, hentry⟩ := Fallible.bind_eq_ok.mp hentry
    cases hentry
    obtain ⟨opened, -, rfl⟩ := ClassTree.ofArchive_eq_ok htree
    exact ⟨rfl, rfl, htree⟩
  have heach : ∀ entry ∈ modules, entry.name = entry.tree.path.stem ∧
      ClassTree.ofArchive files entry.tree.path = .ok entry.tree := by
    refine Fallible.forall_mem_right hopened ?_
    rintro archive entry ⟨rfl, hname, htree⟩
    exact ⟨hname, htree⟩
  refine ⟨rfl, ⟨names, ?_, hsorted, fun name => ?_⟩, fun entry hentry => (heach entry hentry).1,
    fun entry hentry => (heach entry hentry).2⟩
  · have hpaths := hopened.imp fun archive entry hentry => hentry.1.symm
    rw [← List.forall₂_eq_eq_eq, List.forall₂_map_left_iff]
    exact hpaths.flip.imp fun entry archive hentry => hentry.symm
  · rw [hmem, IsArchiveIn, hlisted]
    simp [ClassTree.isArchive]

/-- A search through modules in the order of the directory gives what the first of the archives
holds. -/
theorem firstOf_modules_iff (h : directory.IsOpened files) {content : ByteArray} {file : String} :
    FirstOf (fun (entry : Module) content =>
        (Holdings.ofArchive files entry.tree.path).Gives file content) directory.modules content ↔
      ∃ archive, IsFirstArchive files directory.path
          (fun archive => ∃ content, (Holdings.ofArchive files archive).Gives file content)
          archive ∧
        (Holdings.ofArchive files archive).Gives file content := by
  obtain ⟨names, hnames, hsorted, hmem⟩ := h.ordered
  have hpaths : FirstOf (fun archive content => (Holdings.ofArchive files archive).Gives file content)
      (directory.modules.map (·.tree.path)) content ↔ _ := firstOf_map
  rw [← hpaths, hnames, firstOf_iff_isFirst]
  simp only [isFirstArchive_iff hsorted hmem]

/-- The module that is found for a hint is the first archive of this name. -/
theorem isFirstArchive_of_find? (h : directory.IsOpened files) {hint : String} {entry : Module}
    (hentry : directory.modules.find? (·.name = hint) = some entry) :
    entry ∈ directory.modules ∧
      IsFirstArchive files directory.path (fun archive => archive.stem = hint)
        entry.tree.path := by
  obtain ⟨names, hnames, hsorted, hmem⟩ := h.ordered
  obtain ⟨before, after, hmodules, hbefore, hhint⟩ := find?_eq_some_iff_isFirst.mp hentry
  have hnamed := h.named
  rw [hmodules] at hnamed
  refine ⟨by simp [hmodules], (isFirstArchive_iff hsorted hmem).mp ?_⟩
  rw [← hnames, hmodules]
  refine ⟨before.map (·.tree.path), after.map (·.tree.path), by simp, ?_, ?_⟩
  · rw [List.forall_mem_map]
    intro earlier hearlier
    show earlier.tree.path.stem ≠ hint
    rw [← hnamed earlier (by simp [hearlier])]
    simpa using hbefore earlier hearlier
  · show entry.tree.path.stem = hint
    rw [← hnamed entry (by simp)]
    exact of_decide_eq_true hhint

/-- Without a module for a hint, no archive has this name. -/
theorem forall_stem_ne_of_find? (h : directory.IsOpened files) {hint : String}
    (hnone : directory.modules.find? (·.name = hint) = none) {name : String}
    (hname : IsArchiveIn files directory.path name) : (directory.path.join name).stem ≠ hint := by
  obtain ⟨names, hnames, -, hmem⟩ := h.ordered
  have hpath : directory.path.join name ∈ directory.modules.map (·.tree.path) := by
    rw [hnames]
    exact List.mem_map_of_mem ((hmem name).mpr hname)
  obtain ⟨entry, hentry, heq⟩ := List.mem_map.mp hpath
  rw [← heq, ← h.named entry hentry]
  simpa using List.find?_eq_none.mp hnone entry hentry

/-- **An opened directory of modules finds what its archives give.** -/
theorem IsOpened.finds (h : directory.IsOpened files)
    (hundamaged : ∀ entry ∈ directory.modules, entry.tree.IsUndamaged) (name : ClassName) :
    Finds (directory.find files name) (ModulesGive files directory.path name) := by
  have hfinds : ∀ entry ∈ directory.modules, Finds (entry.tree.find files name.filePath)
      ((Holdings.ofArchive files entry.tree.path).Gives name.filePath) := fun entry hentry =>
    ClassTree.finds_ofArchive (h.opened entry hentry) (hundamaged entry hentry) name.filePath
  rw [find, searched]
  cases hfound : name.moduleHint.bind fun hint => directory.modules.find? (·.name = hint) with
  | some entry =>
    obtain ⟨hint, hhint, hentry⟩ := Option.bind_eq_some_iff.mp hfound
    obtain ⟨hmem, hfirst⟩ := isFirstArchive_of_find? h hentry
    have hsingle : ∀ other ∈ [entry], Finds (other.tree.find files name.filePath)
        ((Holdings.ofArchive files other.tree.path).Gives name.filePath) := by
      simpa using hfinds entry hmem
    refine (Finds.first hsingle).congr fun content => firstOf_singleton.trans ?_
    constructor
    · exact .asked hhint hfirst
    · rintro (⟨hasked, hsame, hgives⟩ | ⟨hnone, -, -⟩)
      · obtain rfl := Option.some.inj (hhint.symm.trans hasked)
        exact hfirst.unique hsame ▸ hgives
      · obtain ⟨other, hpath, hother, hstem, -⟩ := hfirst
        exact absurd (hpath ▸ hstem) (hnone hint hhint other hother)
  | none =>
    refine (Finds.first hfinds).congr fun content => (firstOf_modules_iff h).trans ?_
    have hnone : ∀ hint, name.moduleHint = some hint → ∀ other,
        IsArchiveIn files directory.path other → (directory.path.join other).stem ≠ hint := by
      intro hint hhint other hother
      rw [hhint, Option.bind_some] at hfound
      exact forall_stem_ne_of_find? h hfound hother
    constructor
    · rintro ⟨archive, hfirst, hgives⟩
      exact .any hnone hfirst hgives
    · rintro (⟨hhint, ⟨other, rfl, hother, hstem, -⟩, -⟩ | ⟨-, hfirst, hgives⟩)
      · exact absurd hstem (hnone _ hhint other hother)
      · exact ⟨_, hfirst, hgives⟩

end ModuleDirectory

/-! ### Roots -/

variable {files : FileSystem} {root : Root} {name : ClassName}

namespace ClassTree

/-- What the place of a tree holds. -/
def holdings (tree : ClassTree) (files : FileSystem) : Holdings :=
  match tree.storage with
  | .directory => .ofDirectory files tree.path
  | .archive _ => .ofArchive files tree.path

/-- The tree is what its place is when it is opened. -/
inductive IsOpened (files : FileSystem) : ClassTree → Prop where
  /-- A directory. -/
  | directory {path : Path} {tree : ClassTree} (h : ofDirectory files path = .ok tree) :
      IsOpened files tree
  /-- An archive. -/
  | archive {path : Path} {tree : ClassTree} (h : ofArchive files path = .ok tree) :
      IsOpened files tree

/-- **An opened tree finds what its place holds.** -/
theorem IsOpened.finds {tree : ClassTree} (h : IsOpened files tree)
    (hundamaged : tree.IsUndamaged) (name : String) :
    Finds (tree.find files name) ((tree.holdings files).Gives name) := by
  cases h with
  | directory h =>
    have hfinds := finds_ofDirectory h name
    obtain ⟨names, rfl, -⟩ := ofDirectory_eq_ok h
    exact hfinds
  | archive h =>
    have hfinds := finds_ofArchive h hundamaged name
    obtain ⟨opened, -, rfl⟩ := ofArchive_eq_ok h
    exact hfinds

end ClassTree

namespace Root

/-- What is found for a class in the place of a root. -/
inductive Gives (files : FileSystem) (name : ClassName) : Root → ByteArray → Prop where
  /-- A directory or archive gives the latest version of the class file. -/
  | classes {tree : ClassTree} {content : ByteArray}
      (hgives : (tree.holdings files).Gives name.filePath content) :
      Gives files name (.classes tree) content
  /-- A directory of modules gives what its archives do. -/
  | modules {directory : ModuleDirectory} {content : ByteArray}
      (hgives : ModulesGive files directory.path name content) :
      Gives files name (.modules directory) content
  /-- An installation with a directory of modules gives what this directory does. -/
  | installedModules {home : Path} {layout : InstallationLayout} {content : ByteArray}
      (hmodules : files.isDirectory (home.join "jmods") = true)
      (hgives : ModulesGive files (home.join "jmods") name content) :
      Gives files name (.installation home layout) content
  /-- Another one gives what its archive does. -/
  | installedArchive {home archive : Path} {layout : InstallationLayout} {content : ByteArray}
      (hmodules : files.isDirectory (home.join "jmods") = false)
      (harchive : IsFirst (files.isFile · = true)
        [home.join "jre/lib/rt.jar", home.join "lib/rt.jar"] archive)
      (hgives : (Holdings.ofArchive files archive).Gives name.filePath content) :
      Gives files name (.installation home layout) content

/-- The root is what its place is when it is opened. -/
inductive IsOpened (files : FileSystem) : Root → Prop where
  /-- A directory or an archive. -/
  | classes {tree : ClassTree} (h : ClassTree.IsOpened files tree) : IsOpened files (.classes tree)
  /-- A directory of modules. -/
  | modules {path : Path} {directory : ModuleDirectory}
      (h : ModuleDirectory.ofPath files path = .ok directory) : IsOpened files (.modules directory)
  /-- A Java installation. -/
  | installation {home : Path} {root : Root} (h : ofInstallation? files home = .ok (some root)) :
      IsOpened files root

/-- The trees of a root. -/
def trees : Root → List ClassTree
  | .classes tree | .installation _ (.archive tree) => [tree]
  | .modules directory | .installation _ (.modules directory) => directory.modules.map Module.tree

/-- All archives of a root can be read. -/
def IsUndamaged (root : Root) : Prop := ∀ tree ∈ root.trees, tree.IsUndamaged

instance (root : Root) : Decidable root.IsUndamaged :=
  inferInstanceAs (Decidable (∀ tree ∈ root.trees, tree.IsUndamaged))

/-- The root for an entry of a class path is its directory or its archive. -/
theorem ofClasses?_eq_some {path : Path} (h : ofClasses? files path = .ok (some root)) :
    ∃ tree, root = .classes tree ∧
      (files.isDirectory path = true ∧ ClassTree.ofDirectory files path = .ok tree ∨
        ClassTree.isArchive files path = true ∧ ClassTree.ofArchive files path = .ok tree) := by
  rw [ofClasses?] at h
  split at h
  · next hdirectory =>
    obtain ⟨tree, htree, h⟩ := Fallible.bind_eq_ok.mp h
    cases h
    exact ⟨tree, rfl, .inl ⟨hdirectory, htree⟩⟩
  · split at h
    · next harchive =>
      obtain ⟨tree, htree, h⟩ := Fallible.bind_eq_ok.mp h
      cases h
      exact ⟨tree, rfl, .inr ⟨harchive, htree⟩⟩
    · cases h

/-- The root for an entry of a module path is its directory of modules or its archive. -/
theorem ofModules?_eq_some {path : Path} (h : ofModules? files path = .ok (some root)) :
    (∃ directory, root = .modules directory ∧ ModuleDirectory.ofPath files path = .ok directory) ∨
      ∃ tree, root = .classes tree ∧ ClassTree.isArchive files path = true ∧
        ClassTree.ofArchive files path = .ok tree := by
  rw [ofModules?] at h
  split at h
  · obtain ⟨directory, hdirectory, h⟩ := Fallible.bind_eq_ok.mp h
    cases h
    exact .inl ⟨directory, rfl, hdirectory⟩
  · split at h
    · next harchive =>
      obtain ⟨tree, htree, h⟩ := Fallible.bind_eq_ok.mp h
      cases h
      exact .inr ⟨tree, rfl, harchive, htree⟩
    · cases h

/-- An installation is its directory of modules, or its archive if it has none. -/
theorem ofInstallation?_eq_some {home : Path}
    (h : ofInstallation? files home = .ok (some root)) :
    (files.isDirectory (home.join "jmods") = true ∧ ∃ directory,
        ModuleDirectory.ofPath files (home.join "jmods") = .ok directory ∧
          root = .installation home (.modules directory)) ∨
      (files.isDirectory (home.join "jmods") = false ∧ ∃ archive tree,
        [home.join "jre/lib/rt.jar", home.join "lib/rt.jar"].find? files.isFile = some archive ∧
          ClassTree.ofArchive files archive = .ok tree ∧
            root = .installation home (.archive tree)) := by
  simp only [ofInstallation?, modulesPath, archivePaths, List.map_cons, List.map_nil] at h
  split at h
  · next hmodules =>
    obtain ⟨directory, hdirectory, h⟩ := Fallible.bind_eq_ok.mp h
    cases h
    exact .inl ⟨hmodules, directory, hdirectory, rfl⟩
  · next hmodules =>
    split at h
    · cases h
    · next archive harchive =>
      obtain ⟨tree, htree, h⟩ := Fallible.bind_eq_ok.mp h
      cases h
      exact .inr ⟨Bool.eq_false_iff.mpr hmodules, archive, tree, harchive, htree, rfl⟩

/-- **An opened root finds what its place gives.** -/
theorem IsOpened.finds (h : IsOpened files root) (hundamaged : root.IsUndamaged)
    (name : ClassName) : Finds (root.find files name) (Gives files name root) := by
  cases h with
  | classes h =>
    refine (h.finds (hundamaged _ List.mem_cons_self) name.filePath).congr fun content => ?_
    exact ⟨.classes, fun hgives => by cases hgives; assumption⟩
  | modules h =>
    refine ((ModuleDirectory.isOpened_of_ofPath h).2.finds
      (fun entry hentry => hundamaged _ (List.mem_map_of_mem hentry)) name).congr fun content => ?_
    exact ⟨.modules, fun hgives => by cases hgives; assumption⟩
  | @installation home _ h =>
    obtain ⟨hmodules, directory, hdirectory, rfl⟩ | ⟨hmodules, archive, tree, harchive, htree, rfl⟩ :=
      ofInstallation?_eq_some h
    · obtain ⟨hpath, hopened⟩ := ModuleDirectory.isOpened_of_ofPath hdirectory
      refine (hopened.finds
        (fun entry hentry => hundamaged _ (List.mem_map_of_mem hentry)) name).congr fun content => ?_
      rw [hpath]
      constructor
      · exact .installedModules hmodules
      · rintro (_ | _ | ⟨-, hgives⟩ | ⟨hnone, -, -⟩)
        · exact hgives
        · rw [hmodules] at hnone
          cases hnone
    · refine (ClassTree.finds_ofArchive htree (hundamaged _ List.mem_cons_self)
        name.filePath).congr fun content => ?_
      constructor
      · exact .installedArchive hmodules (find?_eq_some_iff_isFirst.mp harchive)
      · rintro (_ | _ | ⟨hsome, -⟩ | ⟨-, hfirst, hgives⟩)
        · rw [hmodules] at hsome
          cases hsome
        · -- There is only one first archive.
          rw [← find?_eq_some_iff_isFirst, harchive] at hfirst
          cases hfirst
          obtain ⟨opened, -, rfl⟩ := ClassTree.ofArchive_eq_ok htree
          exact hgives

end Root

/-! ### Search paths -/

namespace SearchPath

variable {path : SearchPath}

/-- The root for an entry is what its place is when it is opened. -/
theorem isOpened_of_rootFor? {environment : Environment} {entry : Entry}
    (h : rootFor? files environment entry = .ok (some root)) : root.IsOpened files := by
  cases entry with
  | classes place =>
    obtain ⟨tree, rfl, ⟨-, htree⟩ | ⟨-, htree⟩⟩ := Root.ofClasses?_eq_some h
    · exact .classes (.directory htree)
    · exact .classes (.archive htree)
  | modules place =>
    obtain ⟨directory, rfl, hdirectory⟩ | ⟨tree, rfl, -, htree⟩ := Root.ofModules?_eq_some h
    · exact .modules hdirectory
    · exact .classes (.archive htree)
  | installation home =>
    rw [rootFor?] at h
    split at h
    · cases h
    · exact .installation h

/-- The roots for entries are what their places are. -/
theorem isOpened_of_ofEntries {environment : Environment} {entries : List Entry}
    (h : ofEntries files environment entries = .ok path) :
    ∀ root ∈ path.roots, root.IsOpened files := by
  obtain ⟨roots, hroots, h⟩ := Fallible.bind_eq_ok.mp h
  cases h
  intro root hroot
  obtain ⟨found, hfound, rfl⟩ := List.mem_filterMap.mp hroot
  have hopened : ∀ found ∈ roots, ∀ root, found = some root → root.IsOpened files := by
    refine Fallible.forall_mem_right (Fallible.mapM_eq_ok.mp hroots) ?_
    rintro entry found hentry root rfl
    exact isOpened_of_rootFor? hentry
  exact hopened (some root) hfound root rfl

/-- **Which class file is found.** A search over opened roots, all of whose archives can be read,
does not fail. It gives what the place of the first root gives whose place gives anything, and
nothing exactly if no place does. -/
theorem resolve_eq_first (hopened : ∀ root ∈ path.roots, root.IsOpened files)
    (hundamaged : ∀ root ∈ path.roots, root.IsUndamaged) (name : ClassName) :
    ∃ found, path.resolve files name = .ok found ∧
      (∀ content, found.map ClassSource.bytes = some content ↔
        FirstOf (fun root content => root.Gives files name content) path.roots content) ∧
      (found = none ↔ ∀ root ∈ path.roots, ∀ content, ¬root.Gives files name content) := by
  have hfinds : Finds (path.resolve files name)
      (FirstOf (fun root content => root.Gives files name content) path.roots) :=
    Finds.first fun root hroot => (hopened root hroot).finds (hundamaged root hroot) name
  have hresolve := hfinds
  obtain ⟨found, hfound, hcontent⟩ := hresolve
  rw [hfound] at hfinds
  refine ⟨found, hfound, hcontent, ?_⟩
  rw [hfinds.eq_none_iff, ← not_exists, exists_firstOf]
  simp

/-- A directory in which a class has versions, one of them for a release that is not supported. -/
def versionedClasses : FileSystem where
  nodes := [(["cp"], .directory), (["cp", "META-INF"], .directory),
    (["cp", "META-INF", "MANIFEST.MF"], .file "Multi-Release: true\n".toUTF8 false),
    (["cp", "META-INF", "versions"], .directory),
    (["cp", "META-INF", "versions", "9"], .directory),
    (["cp", "META-INF", "versions", "9", "A.class"], .file ⟨#[9]⟩ false),
    (["cp", "META-INF", "versions", "11"], .directory),
    (["cp", "META-INF", "versions", "11", "A.class"], .file ⟨#[11]⟩ false),
    (["cp", "META-INF", "versions", "26"], .directory),
    (["cp", "META-INF", "versions", "26", "A.class"], .file ⟨#[26]⟩ false),
    (["cp", "A.class"], .file ⟨#[8]⟩ false)]
  workingDirectory := []

/-- The search path with this directory. -/
def versionedPath : SearchPath where
  roots := [.classes { path := ⟨"cp"⟩, storage := .directory, releases := [11, 9] }]

/-- Next to the directory, two modules with one class, and an archive with another file of the first
class and a class of its own. -/
def layeredClasses : FileSystem where
  nodes := versionedClasses.nodes ++ [(["mods"], .directory),
    (["mods", "alpha.jar"], .file (FileTree.stored [("C.class", ⟨#[1]⟩)]) false),
    (["mods", "beta.jar"], .file (FileTree.stored [("C.class", ⟨#[2]⟩)]) false),
    (["lib.jar"], .file (FileTree.stored [("A.class", ⟨#[3]⟩), ("B.class", ⟨#[4]⟩)]) false)]
  workingDirectory := []

/-- The entries of a search path that has all of them. -/
def layeredEntries : List Entry := [.classes ⟨"cp"⟩, .modules ⟨"mods"⟩, .classes ⟨"lib.jar"⟩]

/-- The directory of the two modules. -/
def layeredModules (alpha beta : ClassTree) : ModuleDirectory where
  path := ⟨"mods"⟩
  modules := [{ name := "alpha", tree := alpha }, { name := "beta", tree := beta }]

/-- The search path. -/
def layeredPath : Except ResolveError SearchPath := do
  let alpha ← ClassTree.ofArchive layeredClasses ⟨"mods/alpha.jar"⟩
  let beta ← ClassTree.ofArchive layeredClasses ⟨"mods/beta.jar"⟩
  let library ← ClassTree.ofArchive layeredClasses ⟨"lib.jar"⟩
  return { roots := versionedPath.roots ++ [.modules (layeredModules alpha beta), .classes library] }

/-- The entries open the search path, if its archives can be opened. -/
theorem ofEntries_layeredClasses (h : layeredPath = .ok path) :
    ofEntries layeredClasses [] layeredEntries = .ok path := by
  obtain ⟨alpha, halpha, h⟩ := Fallible.bind_eq_ok.mp h
  obtain ⟨beta, hbeta, h⟩ := Fallible.bind_eq_ok.mp h
  obtain ⟨library, hlibrary, h⟩ := Fallible.bind_eq_ok.mp h
  cases h
  have hlist : layeredClasses.list ⟨"mods"⟩ = .ok ["alpha.jar", "beta.jar"] := rfl
  have hfiles : layeredClasses.filesIn ⟨"mods"⟩ ClassTree.archiveExtensions =
      .ok [⟨"mods/alpha.jar"⟩, ⟨"mods/beta.jar"⟩] := by
    rw [FileSystem.filesIn_of_pairwise hlist (by decide +kernel)]
    rfl
  have hmodules : ModuleDirectory.ofPath layeredClasses ⟨"mods"⟩ = .ok (layeredModules alpha beta) :=
    Fallible.bind_eq_ok.mpr ⟨_, Fallible.mapError_eq_ok.mpr hfiles, Fallible.bind_eq_ok.mpr ⟨_,
      Fallible.mapM_eq_ok.mpr (.cons (Fallible.bind_eq_ok.mpr ⟨alpha, halpha, rfl⟩)
        (.cons (Fallible.bind_eq_ok.mpr ⟨beta, hbeta, rfl⟩) .nil)), rfl⟩⟩
  have hfirst : Root.ofClasses? layeredClasses ⟨"cp"⟩ = .ok versionedPath.roots.head? := rfl
  have hsecond : Root.ofModules? layeredClasses ⟨"mods"⟩ =
      .ok (some (.modules (layeredModules alpha beta))) := by
    rw [Root.ofModules?, if_pos (by decide +kernel), hmodules]
    rfl
  have hthird : Root.ofClasses? layeredClasses ⟨"lib.jar"⟩ = .ok (some (.classes library)) := by
    rw [Root.ofClasses?, if_neg (by decide +kernel), if_pos (by decide +kernel), hlibrary]
    rfl
  exact Fallible.bind_eq_ok.mpr ⟨_, Fallible.mapM_eq_ok.mpr
    (.cons hfirst (.cons hsecond (.cons hthird .nil))), rfl⟩

/-- The directory comes before the archive, and in it the latest version for a supported release;
the module that is asked for comes before the other one; and what stands in the archive alone is
found there. -/
theorem resolve_versionedClasses :
    ∃ path, ofEntries layeredClasses [] layeredEntries = .ok path ∧ path.roots.length = 3 ∧
      (∀ root ∈ path.roots, root.IsUndamaged) ∧
      FirstOf (fun root content => root.Gives layeredClasses { internal := "A" } content)
        path.roots ⟨#[11]⟩ ∧
      FirstOf (fun root content => root.Gives layeredClasses
          { internal := "C", moduleHint := some "beta" } content)
        path.roots ⟨#[2]⟩ ∧
      FirstOf (fun root content => root.Gives layeredClasses { internal := "B" } content)
        path.roots ⟨#[4]⟩ := by
  have hfacts : layeredPath.toOption.any (fun path => decide (path.roots.length = 3 ∧
      (∀ root ∈ path.roots, root.IsUndamaged) ∧
      [{ internal := "A" }, { internal := "C", moduleHint := some "beta" },
        { internal := "B" }].map (fun name => (path.resolve layeredClasses name).toOption.map
          (·.map ClassSource.bytes)) = [some (some ⟨#[11]⟩),
            some (some ⟨#[2]⟩), some (some ⟨#[4]⟩)])) =
      true := by
    decide +kernel
  rw [Option.any_eq_true] at hfacts
  obtain ⟨path, hpath, hfacts⟩ := hfacts
  have hopened := ofEntries_layeredClasses (Fallible.toOption_eq_some.mp hpath)
  obtain ⟨hlength, hundamaged, hbytes⟩ := of_decide_eq_true hfacts
  have hfirst (name : ClassName) (content : ByteArray) (hcontent :
      (path.resolve layeredClasses name).toOption.map (·.map ClassSource.bytes) =
        some (some content)) :
      FirstOf (fun root content => root.Gives layeredClasses name content) path.roots content := by
    obtain ⟨found, hfound, hgives, -⟩ :=
      resolve_eq_first (isOpened_of_ofEntries hopened) hundamaged name
    rw [hfound] at hcontent
    exact (hgives content).mp (Option.some.inj hcontent)
  simp only [List.map_cons, List.map_nil, List.cons.injEq, and_true] at hbytes
  obtain ⟨hversion, hmodule, harchive⟩ := hbytes
  exact ⟨path, hopened, hlength, hundamaged, hfirst _ _ hversion, hfirst _ _ hmodule,
    hfirst _ _ harchive⟩

end SearchPath

end NativeHeaders
