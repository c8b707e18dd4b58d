import Mathlib.Logic.Relation
import NativeHeaders.FileSystem
import NativeHeaders.Proofs.Fallible
import NativeHeaders.Proofs.Text.Segments

/-! # Writing files

What a file holds after something was written. Writing puts a node where no directory is, so every
walk that led somewhere before leads there still (`KeepsPaths`); making directories keeps all nodes
(`Grows`). What stands elsewhere stays, but for new directories (`ChangesAt`). A file holds what was
written to it last (`read_of_write`), and paths that end in different names lead to different places
(`read_of_write_of_ne`). -/

namespace NativeHeaders

namespace Path

/-- The part leads to an entry of the directory in which it is looked for. -/
def IsEntryName (part : String) : Prop := isIdle part = false ∧ part ≠ ".."

/-- The path leads to an entry with the given name. -/
structure EndsIn (path : Path) (name : String) : Prop where
  /-- The name is the name of an entry. -/
  isEntryName : IsEntryName name
  /-- The name is the last part. -/
  parts : ∃ before, path.parts = before ++ [name]

/-- A path joined with a name ends in the name. -/
theorem endsIn_join (path : Path) {name : String} (hname : IsEntryName name)
    (hslash : '/' ∉ name.toList) : (path.join name).EndsIn name := by
  refine ⟨hname, ?_⟩
  have hpieces : Text.segments '/' name.toList = [name.toList] := Text.segments_of_notMem hslash
  have hsplit : ∀ before : List Char,
      Text.pieces '/' (String.ofList (before ++ '/' :: name.toList)) =
        (Text.segments '/' before).map String.ofList ++ [name] := by
    intro before
    rw [Text.pieces, String.toList_ofList, Text.segments_append_cons, hpieces, List.map_append]
    simp
  have hrelative : name.toList.head? ≠ some '/' := by
    intro hhead
    exact hslash (List.mem_of_head? hhead)
  unfold join
  rw [if_neg hrelative]
  split
  · refine ⟨[], ?_⟩
    rw [Path.parts, Text.pieces, hpieces]
    simp
  · next hlast =>
    -- The slash at the end of the path separates it from the name.
    obtain ⟨front, hfront⟩ := List.getLast?_eq_some_iff.mp hlast
    refine ⟨(Text.segments '/' front).map String.ofList, ?_⟩
    rw [← hsplit front, Path.parts]
    congr 1
    apply String.toList_inj.mp
    simp [hfront]
  · refine ⟨(Text.segments '/' path.text.toList).map String.ofList, ?_⟩
    rw [← hsplit path.text.toList, Path.parts]
    congr 1
    apply String.toList_inj.mp
    simp

end Path

namespace FileSystem

variable {files middle later : FileSystem} {path : Path}

/-! ### Walks that stay -/

/-- Everything that stands somewhere stays as it is. -/
structure Grows (files later : FileSystem) : Prop where
  /-- The working directory is the same. -/
  workingDirectory : later.workingDirectory = files.workingDirectory
  /-- Every node stays. -/
  node : ∀ location node, files.node? location = some node → later.node? location = some node

/-- Nothing vanishes and directories stay directories. -/
structure KeepsPaths (files later : FileSystem) : Prop where
  /-- The working directory is the same. -/
  workingDirectory : later.workingDirectory = files.workingDirectory
  /-- Directories stay directories. -/
  directory : ∀ location, files.node? location = some .directory →
    later.node? location = some .directory
  /-- Where something stands, something stands later. -/
  isSome : ∀ location, (files.node? location).isSome → (later.node? location).isSome

/-- All paths stay, and apart from the given locations everything is as it was, or a directory where
nothing stood. -/
structure ChangesAt (places : Location → Prop) (files later : FileSystem) : Prop where
  /-- Nothing vanishes. -/
  keepsPaths : files.KeepsPaths later
  /-- What stands elsewhere stood there before, or is a new directory. -/
  node : ∀ location, ¬places location → later.node? location = files.node? location ∨
    files.node? location = none ∧ later.node? location = some .directory

/-- Where everything stays as it is, nothing vanishes. -/
theorem Grows.keepsPaths (h : files.Grows later) : files.KeepsPaths later := by
  refine ⟨h.workingDirectory, fun location => h.node location .directory, fun location hsome => ?_⟩
  obtain ⟨node, hnode⟩ := Option.isSome_iff_exists.mp hsome
  rw [h.node location node hnode]
  rfl

/-- A file system keeps its own paths. -/
theorem KeepsPaths.refl (files : FileSystem) : files.KeepsPaths files :=
  ⟨rfl, fun _ => id, fun _ => id⟩

/-- Paths that are kept twice are kept. -/
theorem KeepsPaths.trans (h : files.KeepsPaths middle) (h' : middle.KeepsPaths later) :
    files.KeepsPaths later :=
  ⟨h'.workingDirectory.trans h.workingDirectory,
    fun location hnode => h'.directory location (h.directory location hnode),
    fun location hsome => h'.isSome location (h.isSome location hsome)⟩

namespace ChangesAt

variable {places : Location → Prop}

/-- Nothing has changed in a file system itself. -/
theorem refl (places : Location → Prop) (files : FileSystem) : ChangesAt places files files :=
  ⟨.refl files, fun _ _ => .inl rfl⟩

/-- Two changes at the places, one after the other, are a change at the places. -/
theorem trans (h : ChangesAt places files middle) (h' : ChangesAt places middle later) :
    ChangesAt places files later := by
  refine ⟨h.keepsPaths.trans h'.keepsPaths, fun location hplace => ?_⟩
  obtain hsame | ⟨hnone, hnew⟩ := h'.node location hplace
  · rw [hsame]
    exact h.node location hplace
  · obtain hfirst | ⟨-, hdirectory⟩ := h.node location hplace
    · exact .inr ⟨hfirst.symm.trans hnone, hnew⟩
    · rw [hnone] at hdirectory
      cases hdirectory

/-- Changes at some places are changes at more places. -/
theorem mono (h : ChangesAt places files later) {more : Location → Prop}
    (hmore : ∀ location, places location → more location) : ChangesAt more files later :=
  ⟨h.keepsPaths, fun location hplace => h.node location (mt (hmore location) hplace)⟩

/-- Elsewhere files hold what they held. -/
theorem contentAt?_eq (h : ChangesAt places files later) {location : Location}
    (hplace : ¬places location) : later.contentAt? location = files.contentAt? location := by
  unfold contentAt?
  obtain hsame | ⟨hnone, hnew⟩ := h.node location hplace
  · rw [hsame]
  · rw [hnone, hnew]

/-- Where only directories are new, everything stays as it is. -/
theorem grows (h : ChangesAt (fun _ => False) files later) : files.Grows later := by
  refine ⟨h.keepsPaths.workingDirectory, fun location node hnode => ?_⟩
  obtain hsame | ⟨hnone, -⟩ := h.node location id
  · exact hsame.trans hnode
  · rw [hnone] at hnode
    cases hnode

end ChangesAt

/-- The check passes exactly where a directory stands. -/
theorem requireDirectory_eq_ok {location : Location} :
    files.requireDirectory location = .ok () ↔ files.node? location = some .directory := by
  unfold requireDirectory
  split
  · next h => simp [h]
  · next h => simp [h]
  · next h => simp [h]

/-- One part of a walk that leads somewhere. -/
theorem walk_cons_eq_ok {current target : Location} {part : String} {rest : List String} :
    files.walk current (part :: rest) = .ok target ↔
      files.node? current = some .directory ∧
        if Path.isIdle part then files.walk current rest = .ok target
        else if part = ".." then files.walk current.dropLast rest = .ok target
        else part.utf8ByteSize ≤ maxNameBytes ∧ (files.node? (current ++ [part])).isSome ∧
          files.walk (current ++ [part]) rest = .ok target := by
  rw [walk, Fallible.bind_eq_ok, ← requireDirectory_eq_ok]
  constructor
  · rintro ⟨⟨⟩, hdirectory, h⟩
    refine ⟨hdirectory, ?_⟩
    split at h
    · next hidle => rwa [if_pos hidle]
    · next hidle =>
      rw [if_neg hidle]
      split at h
      · next hparent => rwa [if_pos hparent]
      · next hparent =>
        rw [if_neg hparent]
        split at h
        · cases h
        · next hsize =>
          split at h
          · cases h
          · next hnode =>
            exact ⟨Nat.not_lt.mp hsize, by simpa [Option.isSome_iff_ne_none] using hnode, h⟩
  · rintro ⟨hdirectory, h⟩
    refine ⟨(), hdirectory, ?_⟩
    split at h
    · next hidle => rwa [if_pos hidle]
    · next hidle =>
      rw [if_neg hidle]
      split at h
      · next hparent => rwa [if_pos hparent]
      · next hparent =>
        obtain ⟨hsize, hnode, h⟩ := h
        rw [if_neg hparent, if_neg (Nat.not_lt.mpr hsize), if_neg]
        · exact h
        · simpa [Option.isSome_iff_ne_none] using hnode

/-- A walk of two parts ends where the second one ends that starts behind the first one. -/
theorem walk_append_eq_ok {current target : Location} {first second : List String} :
    files.walk current (first ++ second) = .ok target ↔
      ∃ between, files.walk current first = .ok between ∧
        files.walk between second = .ok target := by
  induction first generalizing current with
  | nil => simp [walk]
  | cons part first ih =>
    rw [List.cons_append, walk_cons_eq_ok]
    simp only [walk_cons_eq_ok]
    split
    · simp [ih, and_assoc]
    · split <;> simp [ih, and_assoc]

/-- A walk that leads somewhere leads there still. -/
theorem KeepsPaths.walk (h : files.KeepsPaths later) {current target : Location}
    {parts : List String} (hwalk : files.walk current parts = .ok target) :
    later.walk current parts = .ok target := by
  induction parts generalizing current with
  | nil => exact hwalk
  | cons part rest ih =>
    rw [walk_cons_eq_ok] at hwalk ⊢
    obtain ⟨hdirectory, hwalk⟩ := hwalk
    refine ⟨h.directory current hdirectory, ?_⟩
    split
    · next hidle =>
      rw [if_pos hidle] at hwalk
      exact ih hwalk
    · next hidle =>
      rw [if_neg hidle] at hwalk
      split
      · next hparent =>
        rw [if_pos hparent] at hwalk
        exact ih hwalk
      · next hparent =>
        rw [if_neg hparent] at hwalk
        exact ⟨hwalk.1, h.isSome _ hwalk.2.1, ih hwalk.2.2⟩

/-- A path leads to a location exactly if it can be looked up and the walk along its parts ends
there. -/
theorem resolve_eq_ok {location : Location} :
    files.resolve path = .ok location ↔
      checkPath path = .ok () ∧ files.walk (files.start path) path.parts = .ok location := by
  rw [resolve, Fallible.bind_eq_ok]
  constructor
  · rintro ⟨⟨⟩, h⟩
    exact h
  · intro h
    exact ⟨(), h⟩

/-- If paths are kept, walks start where they did. -/
theorem KeepsPaths.start (h : files.KeepsPaths later) (path : Path) :
    later.start path = files.start path := by
  rw [FileSystem.start, FileSystem.start, h.workingDirectory]

/-- If paths are kept, a path leads where it led. -/
theorem KeepsPaths.resolve (h : files.KeepsPaths later) {location : Location}
    (hresolve : files.resolve path = .ok location) : later.resolve path = .ok location := by
  rw [resolve_eq_ok] at hresolve ⊢
  rw [h.start path]
  exact ⟨hresolve.1, h.walk hresolve.2⟩

/-- A file can be read exactly if its path leads to a location with a content. -/
theorem read_eq_ok {content : ByteArray} :
    files.read path = .ok content ↔
      ∃ location, files.resolve path = .ok location ∧ files.contentAt? location = some content := by
  rw [read, Fallible.bind_eq_ok]
  constructor
  · rintro ⟨location, hresolve, h⟩
    refine ⟨location, hresolve, ?_⟩
    split at h
    · next hcontent =>
      cases h
      exact hcontent
    · cases h
  · rintro ⟨location, hresolve, hcontent⟩
    refine ⟨location, hresolve, ?_⟩
    rw [hcontent]
    rfl

/-- A location has a content exactly if a file stands there. -/
theorem contentAt?_eq_some {location : Location} {content : ByteArray} :
    files.contentAt? location = some content ↔
      ∃ isExecutable, files.node? location = some (.file content isExecutable) := by
  unfold contentAt?
  split
  · next h => simp [h]
  · next h =>
    constructor
    · rintro ⟨⟩
    · rintro ⟨isExecutable, hnode⟩
      exact absurd hnode (h content isExecutable)

/-- Files that can be read stay readable when directories are made. -/
theorem Grows.read (h : files.Grows later) {content : ByteArray}
    (hread : files.read path = .ok content) : later.read path = .ok content := by
  rw [read_eq_ok] at hread ⊢
  obtain ⟨location, hresolve, hcontent⟩ := hread
  obtain ⟨isExecutable, hnode⟩ := contentAt?_eq_some.mp hcontent
  exact ⟨location, h.keepsPaths.resolve hresolve,
    contentAt?_eq_some.mpr ⟨isExecutable, h.node location _ hnode⟩⟩

/-- Where something is to be put: the parts in front of the last one lead to a directory. -/
theorem lastStep?_eq_some {directory : Location} {name : String}
    (h : files.lastStep? path = .ok (some (directory, name))) :
    ∃ before, checkPath path = .ok () ∧ partsWithoutSlash path = before ++ [name] ∧ name ≠ "" ∧
      files.walk (files.start path) before = .ok directory ∧
      files.node? directory = some .directory := by
  rw [lastStep?, Fallible.bind_eq_ok] at h
  obtain ⟨⟨⟩, hcheck, h⟩ := h
  split at h
  · cases h
  · next last before hparts =>
    obtain ⟨found, hwalk, h⟩ := Fallible.bind_eq_ok.mp h
    obtain ⟨⟨⟩, hdirectory, h⟩ := Fallible.bind_eq_ok.mp h
    cases h
    refine ⟨before.reverse, hcheck, ?_, ?_, hwalk, requireDirectory_eq_ok.mp hdirectory⟩
    · rw [← List.reverse_cons, ← hparts, List.reverse_reverse]
    · -- Empty parts at the end were dropped.
      have hhead :=
        List.head?_dropWhile_not (fun part : String => decide (part = "")) path.parts.reverse
      rw [partsWithoutSlash, List.reverse_reverse] at hparts
      rw [hparts] at hhead
      simpa using hhead

/-! ### Making directories -/

/-- Putting something where nothing stands keeps everything. -/
theorem grows_setNode {location : Location} {node : Node} (hne : location ≠ [])
    (hfree : files.node? location = none) : files.Grows (files.setNode location node) := by
  refine ⟨workingDirectory_setNode files location node, fun other found hfound => ?_⟩
  have hother : other ≠ location := by
    rintro rfl
    rw [hfree] at hfound
    cases hfound
  rw [node?_setNode_of_ne files node hother]
  exact hfound

/-- What making a directory does: the parts in front of the last one lead to a directory, and in it a
new one is put where nothing stands. -/
theorem createDirectory_eq_ok (h : files.createDirectory path = .ok later) :
    ∃ directory before name, partsWithoutSlash path = before ++ [name] ∧
      files.walk (files.start path) before = .ok directory ∧
      files.node? directory = some .directory ∧ Path.isIdle name = false ∧ name ≠ ".." ∧
      name.utf8ByteSize ≤ maxNameBytes ∧ files.node? (directory ++ [name]) = none ∧
      later = files.setNode (directory ++ [name]) .directory := by
  rw [createDirectory, Fallible.bind_eq_ok] at h
  obtain ⟨step, hstep, h⟩ := h
  cases step with
  | none => cases h
  | some step =>
    obtain ⟨directory, name⟩ := step
    obtain ⟨before, -, hparts, hempty, hwalk, hdirectory⟩ := lastStep?_eq_some hstep
    dsimp only at h
    split at h
    · cases h
    · next hname =>
      rw [not_or] at hname
      obtain ⟨hdot, hparent⟩ := hname
      split at h
      · cases h
      · next hsize =>
        split at h
        · cases h
        · next hfree =>
          cases h
          exact ⟨directory, before, name, hparts, hwalk, hdirectory,
            by simp [Path.isIdle, hdot, hempty], hparent, Nat.not_lt.mp hsize, by simpa using hfree,
            rfl⟩

/-- A new directory stands where nothing stood. -/
theorem createDirectory_changes (h : files.createDirectory path = .ok later) :
    ChangesAt (fun _ => False) files later := by
  obtain ⟨directory, before, name, -, -, -, -, -, -, hfree, rfl⟩ := createDirectory_eq_ok h
  refine ⟨(grows_setNode (by simp) hfree).keepsPaths, fun location _ => ?_⟩
  by_cases heq : location = directory ++ [name]
  · rw [heq]
    exact .inr ⟨hfree, node?_setNode_self files _ (by simp)⟩
  · exact .inl (node?_setNode_of_ne files _ heq)

/-- One of the paths becomes a directory. -/
def MakesOne (paths : List Path) (files later : FileSystem) : Prop :=
  ∃ path ∈ paths, files.createDirectory path = .ok later

/-- Making directories is to make one after the other, even if it fails on the way. -/
theorem makesOne_createChain (files : FileSystem) (paths : List Path) :
    Relation.ReflTransGen (MakesOne paths) files (files.createChain paths).2 := by
  induction paths generalizing files with
  | nil => exact .refl
  | cons path above ih =>
    rw [createChain]
    split
    · exact .refl
    · split
      · next made hmade => exact .single ⟨path, List.mem_cons_self, hmade⟩
      · -- Something above is missing: it is made first, then the directory itself.
        have habove : Relation.ReflTransGen (MakesOne (path :: above)) files
            (files.createChain above).2 :=
          Relation.ReflTransGen.mono (fun _ _ ⟨other, hother, hmade⟩ =>
            ⟨other, List.mem_cons_of_mem path hother, hmade⟩) _ _ (ih files)
        split
        · next heq =>
          rw [heq] at habove
          exact habove
        · next heq =>
          rw [heq] at habove
          split
          · next made hmade => exact habove.tail ⟨path, List.mem_cons_self, hmade⟩
          · exact habove
      · exact .refl

/-- Making directories changes nothing else. -/
theorem createChain_changes (files : FileSystem) (paths : List Path) :
    ChangesAt (fun _ => False) files (files.createChain paths).2 := by
  have hsteps := makesOne_createChain files paths
  generalize (files.createChain paths).2 = later at hsteps ⊢
  induction hsteps with
  | refl => exact .refl _ files
  | tail _ hstep ih =>
    obtain ⟨path, -, hmade⟩ := hstep
    exact ih.trans (createDirectory_changes hmade)

/-! ### Writing -/

/-- What writing a file does: the parts in front of the last one lead to a directory, and in this
directory a file with the content is put in the place of nothing or of a file. -/
theorem write_eq_ok {content : ByteArray} (h : files.write path content = .ok later) :
    ∃ directory before name isExecutable, checkPath path = .ok () ∧ path.parts = before ++ [name] ∧
      files.walk (files.start path) before = .ok directory ∧
      files.node? directory = some .directory ∧ Path.isIdle name = false ∧ name ≠ ".." ∧
      name.utf8ByteSize ≤ maxNameBytes ∧ files.node? (directory ++ [name]) ≠ some .directory ∧
      later = files.setNode (directory ++ [name]) (.file content isExecutable) := by
  rw [write, Fallible.bind_eq_ok] at h
  obtain ⟨step, hstep, h⟩ := h
  cases step with
  | none => cases h
  | some step =>
    obtain ⟨directory, name⟩ := step
    obtain ⟨before, hcheck, hparts, hempty, hwalk, hdirectory⟩ := lastStep?_eq_some hstep
    dsimp only at h
    split at h
    · cases h
    · next hname =>
      rw [not_or, not_or, Classical.not_not] at hname
      obtain ⟨hdot, hparent, hslash⟩ := hname
      have hidle : Path.isIdle name = false := by simp [Path.isIdle, hdot, hempty]
      split at h
      · cases h
      · next hsize =>
        refine ⟨directory, before, name, ?_⟩
        -- A file that is replaced keeps its permission, and a new one is not executable.
        split at h
        · cases h
        · next content' isExecutable hnode =>
          cases h
          exact ⟨isExecutable, hcheck, hslash.trans hparts, hwalk, hdirectory, hidle, hparent,
            Nat.not_lt.mp hsize, by simp [hnode], rfl⟩
        · next hnode =>
          cases h
          exact ⟨false, hcheck, hslash.trans hparts, hwalk, hdirectory, hidle, hparent,
            Nat.not_lt.mp hsize, by simp [hnode], rfl⟩

/-- Putting a file where no directory stands keeps all paths. -/
theorem keepsPaths_setNode_file {location : Location} (content : ByteArray) (isExecutable : Bool)
    (hne : location ≠ []) (hnode : files.node? location ≠ some .directory) :
    files.KeepsPaths (files.setNode location (.file content isExecutable)) := by
  refine ⟨workingDirectory_setNode .., fun other hother => ?_, fun other hother => ?_⟩
  · have hne : other ≠ location := by
      rintro rfl
      exact hnode hother
    rwa [node?_setNode_of_ne files _ hne]
  · by_cases heq : other = location
    · rw [heq, node?_setNode_self files _ hne]
      rfl
    · rwa [node?_setNode_of_ne files _ heq]

/-- The path to which something was written leads to the file with the content, which stands under
the last part of the path; nothing else has changed. -/
theorem changes_of_write {content : ByteArray} (h : files.write path content = .ok later) :
    ∃ directory before name, path.parts = before ++ [name] ∧
      later.resolve path = .ok (directory ++ [name]) ∧
      later.contentAt? (directory ++ [name]) = some content ∧
      ChangesAt (· = directory ++ [name]) files later := by
  obtain ⟨directory, before, name, isExecutable, hcheck, hparts, hwalk, hdirectory, hidle, hparent,
    hsize, hnode, rfl⟩ := write_eq_ok h
  have hne : directory ++ [name] ≠ [] := by simp
  have hkeeps := keepsPaths_setNode_file content isExecutable hne hnode
  have hself := node?_setNode_self files (.file content isExecutable) hne
  refine ⟨directory, before, name, hparts, ?_, contentAt?_eq_some.mpr ⟨isExecutable, hself⟩, hkeeps,
    fun location hplace => .inl (node?_setNode_of_ne files _ hplace)⟩
  -- The parts in front of the name lead where they led, and behind them the file stands now.
  rw [resolve_eq_ok, hparts, hkeeps.start, walk_append_eq_ok]
  refine ⟨hcheck, directory, hkeeps.walk hwalk, ?_⟩
  rw [walk_cons_eq_ok, if_neg (by simp [hidle]), if_neg hparent, hself]
  exact ⟨hkeeps.directory directory hdirectory, hsize, rfl, rfl⟩

/-- A file holds what was written to it. -/
theorem read_of_write {content : ByteArray} (h : files.write path content = .ok later) :
    later.read path = .ok content := by
  obtain ⟨directory, before, name, -, hresolve, hcontent, -⟩ := changes_of_write h
  exact read_eq_ok.mpr ⟨directory ++ [name], hresolve, hcontent⟩

/-- A path leads to the entry in whose name it ends. -/
theorem eq_concat_of_resolve {location : Location} {name : String} (hname : path.EndsIn name)
    (h : files.resolve path = .ok location) : ∃ directory, location = directory ++ [name] := by
  obtain ⟨⟨hidle, hparent⟩, before, hparts⟩ := hname
  rw [resolve_eq_ok, hparts, walk_append_eq_ok] at h
  obtain ⟨-, directory, -, hlast⟩ := h
  rw [walk_cons_eq_ok, if_neg (by simp [hidle]), if_neg hparent] at hlast
  obtain ⟨-, -, -, hwalk⟩ := hlast
  cases hwalk
  exact ⟨directory, rfl⟩

/-- A file that can be read keeps what it holds when something is written to a path that ends in
another name. -/
theorem read_of_write_of_ne {content found : ByteArray} {other : Path} {name name' : String}
    (h : files.write path content = .ok later) (hread : files.read other = .ok found)
    (hpath : path.EndsIn name) (hother : other.EndsIn name') (hne : name' ≠ name) :
    later.read other = .ok found := by
  obtain ⟨directory, front, last, hparts, -, -, hchanges⟩ := changes_of_write h
  obtain rfl : last = name := by
    obtain ⟨before, hname⟩ := hpath.parts
    simpa using (List.append_inj' (hparts.symm.trans hname) rfl).2
  rw [read_eq_ok] at hread ⊢
  obtain ⟨location, hresolve, hcontent⟩ := hread
  obtain ⟨directory', rfl⟩ := eq_concat_of_resolve hother hresolve
  -- Different names in whatever directories are different places.
  have hlocation : directory' ++ [name'] ≠ directory ++ [last] := by
    intro heq
    exact hne (by simpa using (List.append_inj' heq rfl).2)
  exact ⟨directory' ++ [name'], hchanges.keepsPaths.resolve hresolve,
    (hchanges.contentAt?_eq hlocation).trans hcontent⟩

end FileSystem

end NativeHeaders
