import NativeHeaders.Proofs.ClassName
import NativeHeaders.Proofs.Hierarchy.Reachability
import NativeHeaders.Proofs.SearchPath.Precedence

/-! # How many classes can be found

In one place, under one of the names for versions or under its own, different classes are found in
different files. So a tree has no more classes than its capacity, and a search path neither
(`atMost_resolve`). -/

namespace NativeHeaders

/-! ### Counting names -/

variable {count : Nat} {holds other : String → Prop}

/-- A narrower kind has no more names. -/
theorem AtMost.mono (h : AtMost count holds) (hother : ∀ name, other name → holds name) :
    AtMost count other := by
  obtain ⟨names, hlength, hnames⟩ := h
  exact ⟨names, hlength, fun name hname => hnames name (hother name hname)⟩

/-- Names that stand in one of several groups are no more than the groups have together. -/
theorem atMost_sum {α : Type} {groups : List α} {counts : α → Nat} {inGroup : α → String → Prop}
    (h : ∀ group ∈ groups, AtMost (counts group) (inGroup group)) :
    AtMost ((groups.map counts).foldr (· + ·) 0)
      fun name => ∃ group ∈ groups, inGroup group name := by
  induction groups with
  | nil => exact ⟨[], Nat.le_refl 0, by simp⟩
  | cons group groups ih =>
    rw [List.forall_mem_cons] at h
    obtain ⟨first, hfirst, hgroup⟩ := h.1
    obtain ⟨rest, hrest, hgroups⟩ := ih h.2
    refine ⟨first ++ rest, ?_, ?_⟩
    · simp only [List.length_append, List.map_cons, List.foldr_cons]
      omega
    · rintro name ⟨found, hfound, hname⟩
      obtain rfl | hfound := List.mem_cons.mp hfound
      · exact List.mem_append_left _ (hgroup name hname)
      · exact List.mem_append_right _ (hgroups name ⟨found, hfound, hname⟩)

/-- Names that stand in different places are no more than the places. -/
theorem atMost_places {α : Type} {places : List α} (stands : String → α → Prop)
    (hplace : ∀ name, holds name → ∃ place ∈ places, stands name place)
    (hunique : ∀ first second place, stands first place → stands second place → first = second) :
    AtMost places.length holds := by
  induction places generalizing holds with
  | nil =>
    refine ⟨[], Nat.le_refl 0, fun name hname => ?_⟩
    obtain ⟨place, hmem, -⟩ := hplace name hname
    cases hmem
  | cons place places ih =>
    obtain ⟨names, hlength, hnames⟩ := @ih
      (fun name => ∃ place ∈ places, stands name place) (fun name hname => hname)
    by_cases hsome : ∃ name, stands name place
    · -- The one name that stands in the first place comes on top.
      obtain ⟨first, hfirst⟩ := hsome
      refine ⟨first :: names, by simpa using hlength, fun name hname => ?_⟩
      obtain ⟨found, hfound, hstands⟩ := hplace name hname
      obtain rfl | hfound := List.mem_cons.mp hfound
      · rw [hunique name first found hstands hfirst]
        exact List.mem_cons_self
      · exact List.mem_cons_of_mem _ (hnames name ⟨found, hfound, hstands⟩)
    · refine ⟨names, Nat.le_succ_of_le hlength, fun name hname => ?_⟩
      obtain ⟨found, hfound, hstands⟩ := hplace name hname
      obtain rfl | hfound := List.mem_cons.mp hfound
      · exact absurd ⟨name, hstands⟩ hsome
      · exact hnames name ⟨found, hfound, hstands⟩

/-! ### Trees -/

variable {files : FileSystem}

/-- The file of the class with an internal name. -/
def ClassName.fileFor (internal : String) : String := filePath { internal }

/-- Different classes have different files. -/
theorem ClassName.fileFor_inj {first second : String} (h : fileFor first = fileFor second) :
    first = second := by
  rw [fileFor, filePath, fileFor, filePath] at h
  exact String.append_left_inj _ |>.mp h

namespace ClassTree

variable {tree : ClassTree} {lead : String}

/-- What stands in front of the name of a file in the names under which a tree looks for it. -/
def leads (tree : ClassTree) : List String :=
  tree.releases.map (fun release => Manifest.versionsPath ++ toString release ++ "/") ++ [""]

/-- The candidates for a class stand behind the leads of the tree. -/
theorem candidates_eq (tree : ClassTree) (name : String) :
    tree.candidates name = tree.leads.map (· ++ name) := by
  simp [candidates, leads, versionName]

/-- What stands in front adds parts in front. -/
theorem pieces_lead (h : lead ∈ tree.leads) :
    ∃ front, ∀ name, Text.pieces '/' (lead ++ name) = front ++ Text.pieces '/' name := by
  rw [leads, List.mem_append, List.mem_map, List.mem_singleton] at h
  obtain ⟨release, -, rfl⟩ | rfl := h
  · exact ⟨_, Text.pieces_append_slash _⟩
  · exact ⟨[], fun name => by simp⟩

/-- A relative name is relative behind every lead. -/
theorem isRelative_lead (h : lead ∈ tree.leads) {name : String} (hname : Path.IsRelative name) :
    Path.IsRelative (lead ++ name) := by
  rw [leads, List.mem_append, List.mem_map, List.mem_singleton] at h
  obtain ⟨release, -, rfl⟩ | rfl := h
  · exact isRelative_versionName release name
  · simpa using hname

/-- A class is found under one of the names. -/
def FoundBehind (tree : ClassTree) (files : FileSystem) (lead internal : String) : Prop :=
  ClassName.isInternal internal = true ∧
    ∃ source, tree.findExactly files (lead ++ ClassName.fileFor internal) = .ok (some source)

/-- The number of places in which a tree may have a file. -/
def places (tree : ClassTree) (files : FileSystem) : Nat :=
  match tree.storage with
  | .directory => files.nodes.length
  | .archive opened => opened.archive.entries.length

/-- A class file that is found below a directory can be read there. -/
theorem read_of_findBelow {path : Path} {name : String} {source : ClassSource}
    (h : findBelow files path name = .ok (some source)) :
    files.read (path.join name) = .ok source.bytes := by
  unfold findBelow at h
  dsimp only at h
  split at h
  · split at h
    · next hread =>
      cases h
      exact hread
    · cases h
  · cases h

/-- A class file that is found in an archive has an entry there. -/
theorem mem_entries_of_find {opened : OpenedArchive} {path : Path} {name : String}
    {source : ClassSource} (h : opened.find files path name = .ok (some source)) :
    ∃ entry ∈ opened.archive.entries, entry.name = opened.base ++ name := by
  obtain ⟨entry, hentry, h⟩ := Fallible.bind_eq_ok.mp h
  cases entry with
  | none => cases h
  | some entry =>
    have hfind := OpenedArchive.readable?_eq_ok (Fallible.mapError_eq_ok.mp hentry)
    exact ⟨entry, OpenedArchive.mem_entries_of_find? hfind⟩

/-- The location of the file of a class, if a lead in front of its name leads into a directory. -/
def StandsAt (files : FileSystem) (path : Path) (front : List String) (internal : String)
    (location : Location) : Prop :=
  ∃ between directory, files.walk (files.start path) path.leadParts = .ok between ∧
    files.walk between front = .ok directory ∧
    location = directory ++ Text.pieces '/' (ClassName.fileFor internal)

/-- At most one name stands for a location. -/
theorem StandsAt.unique {path : Path} {front : List String} {first second : String}
    {location : Location} (hfirst : StandsAt files path front first location)
    (hsecond : StandsAt files path front second location) : first = second := by
  obtain ⟨between, directory, hbetween, hdirectory, rfl⟩ := hfirst
  obtain ⟨between', directory', hbetween', hdirectory', hlocation⟩ := hsecond
  obtain rfl := Except.ok.inj (hbetween.symm.trans hbetween')
  obtain rfl := Except.ok.inj (hdirectory.symm.trans hdirectory')
  exact ClassName.fileFor_inj (Text.pieces_inj.mp (List.append_cancel_left hlocation))

/-- The file of a class that is found below a directory is one of the nodes. -/
theorem exists_standsAt {path : Path} {front : List String} {internal : String}
    {source : ClassSource}
    (hfront : ∀ name, Text.pieces '/' (lead ++ name) = front ++ Text.pieces '/' name)
    (hlead : lead ∈ tree.leads) (hinternal : ClassName.isInternal internal = true)
    (h : findBelow files path (lead ++ ClassName.fileFor internal) = .ok (some source)) :
    ∃ entry ∈ files.nodes, StandsAt files path front internal entry.1 := by
  have hinner : Path.IsInner (ClassName.fileFor internal) := ClassName.isInner_filePath hinternal
  obtain ⟨location, hresolve, hcontent⟩ := FileSystem.read_eq_ok.mp (read_of_findBelow h)
  rw [FileSystem.resolve_join path (isRelative_lead hlead hinner.isRelative), hfront] at hresolve
  obtain ⟨-, between, hbetween, hwalk⟩ := hresolve
  obtain ⟨directory, hdirectory, hwalk⟩ := FileSystem.walk_append_eq_ok.mp hwalk
  obtain rfl := FileSystem.walk_entryNames hinner hwalk
  obtain ⟨isExecutable, hnode⟩ := FileSystem.contentAt?_eq_some.mp hcontent
  have hne : directory ++ Text.pieces '/' (ClassName.fileFor internal) ≠ [] := by
    simp [Text.pieces_ne_nil]
  exact ⟨_, FileSystem.mem_of_node?_eq_some hnode hne, between, directory, hbetween, hdirectory,
    rfl⟩

/-- Different classes are found in different places. -/
theorem atMost_foundBehind (h : lead ∈ tree.leads) :
    AtMost (tree.places files) (tree.FoundBehind files lead) := by
  unfold places FoundBehind findExactly
  cases tree.storage with
  | directory =>
    obtain ⟨front, hfront⟩ := pieces_lead h
    refine atMost_places
      (fun internal entry => StandsAt files tree.path front internal entry.1) ?_ fun _ _ _ => StandsAt.unique
    rintro internal ⟨hinternal, source, hfound⟩
    exact exists_standsAt hfront h hinternal hfound
  | archive opened =>
    refine atMost_places
      (fun internal entry => entry.name = opened.base ++ (lead ++ ClassName.fileFor internal)) ?_ ?_
    · rintro internal ⟨-, source, hfound⟩
      exact mem_entries_of_find hfound
    · intro first second entry hfirst hsecond
      rw [hfirst] at hsecond
      exact ClassName.fileFor_inj
        ((String.append_right_inj _).mp ((String.append_right_inj _).mp hsecond))

/-- A tree finds no more classes than its capacity. -/
theorem atMost_find (tree : ClassTree) (files : FileSystem) :
    AtMost (tree.capacity files) fun internal => ClassName.isInternal internal = true ∧
      ∃ source, tree.find files (ClassName.fileFor internal) = .ok (some source) := by
  have hcapacity : tree.capacity files =
      (tree.leads.map fun _ => tree.places files).foldr (· + ·) 0 := by
    have hsum : ∀ leads : List String,
        (leads.map fun _ => tree.places files).foldr (· + ·) 0 =
          leads.length * tree.places files := by
      intro leads
      induction leads with
      | nil => simp
      | cons lead leads ih =>
        rw [List.map_cons, List.foldr_cons, ih, List.length_cons, Nat.succ_mul, Nat.add_comm]
    rw [hsum, leads, List.length_append, List.length_map, List.length_singleton]
    rfl
  rw [hcapacity]
  refine (atMost_sum fun lead hlead => atMost_foundBehind hlead).mono ?_
  rintro internal ⟨hinternal, source, hfind⟩
  rw [find, candidates_eq] at hfind
  obtain ⟨candidate, hcandidate, hfound⟩ := Fallible.exists_of_findSomeM? hfind
  obtain ⟨lead, hlead, rfl⟩ := List.mem_map.mp hcandidate
  exact ⟨lead, hlead, hinternal, source, hfound⟩

end ClassTree

/-! ### Search paths -/

/-- The capacity of a root is the one of its trees. -/
theorem Root.capacity_eq (root : Root) (files : FileSystem) :
    root.capacity files = (root.trees.map (·.capacity files)).foldr (· + ·) 0 := by
  cases root with
  | classes tree => simp [capacity, trees]
  | modules directory => simp [capacity, trees, ModuleDirectory.capacity, Function.comp_def]
  | installation home layout =>
    cases layout with
    | archive tree => simp [capacity, trees]
    | modules directory => simp [capacity, trees, ModuleDirectory.capacity, Function.comp_def]

/-- The modules in which a class is looked for are modules of the directory. -/
theorem ModuleDirectory.mem_of_mem_searched {directory : ModuleDirectory} {name : ClassName}
    {entry : Module} (h : entry ∈ directory.searched name) : entry ∈ directory.modules := by
  unfold searched at h
  split at h
  · next found hfound =>
    obtain ⟨hint, -, hentry⟩ := Option.bind_eq_some_iff.mp hfound
    obtain rfl := List.mem_singleton.mp h
    exact List.mem_of_find?_eq_some hentry
  · exact h

/-- What a root finds was found in one of its trees. -/
theorem Root.exists_find_of_find {root : Root} {name : ClassName} {source : ClassSource}
    (h : root.find files name = .ok (some source)) :
    ∃ tree ∈ root.trees, tree.find files name.filePath = .ok (some source) := by
  have hmodules : ∀ directory : ModuleDirectory, directory.find files name = .ok (some source) →
      ∃ tree ∈ directory.modules.map Module.tree,
        tree.find files name.filePath = .ok (some source) := by
    intro directory hfind
    obtain ⟨entry, hentry, hfound⟩ := Fallible.exists_of_findSomeM? hfind
    exact ⟨entry.tree, List.mem_map_of_mem (ModuleDirectory.mem_of_mem_searched hentry), hfound⟩
  cases root with
  | classes tree => exact ⟨tree, List.mem_cons_self, h⟩
  | modules directory => exact hmodules directory h
  | installation home layout =>
    cases layout with
    | archive tree => exact ⟨tree, List.mem_cons_self, h⟩
    | modules directory => exact hmodules directory h

/-- **A search path finds no more classes than its capacity.** -/
theorem SearchPath.atMost_resolve (path : SearchPath) (files : FileSystem) :
    AtMost (path.capacity files) fun internal => ClassName.isInternal internal = true ∧
      ∃ source, path.resolve files { internal } = .ok (some source) := by
  have hroot : ∀ root ∈ path.roots, AtMost (root.capacity files) fun internal =>
      ∃ tree ∈ root.trees, ClassName.isInternal internal = true ∧
        ∃ source, tree.find files (ClassName.fileFor internal) = .ok (some source) := by
    intro root _
    rw [root.capacity_eq]
    exact atMost_sum fun tree _ => tree.atMost_find files
  refine (atMost_sum hroot).mono ?_
  rintro internal ⟨hinternal, source, hresolve⟩
  obtain ⟨root, hmem, hfind⟩ := Fallible.exists_of_findSomeM? hresolve
  obtain ⟨tree, htree, hfound⟩ := Root.exists_find_of_find hfind
  exact ⟨root, hmem, tree, htree, hinternal, source, hfound⟩

end NativeHeaders
