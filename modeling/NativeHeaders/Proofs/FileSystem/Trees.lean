import NativeHeaders.Proofs.FileSystem.Below

/-! # Trees of files

In a file system that is a tree (`IsTree`), whatever stands somewhere stands in a directory. The
file system that a machine begins with is a tree (`isTree_bare`), and everything that changes a file
system keeps it one: a node is only ever put into a directory, and a directory is never replaced by a
file (`IsTree.setNode`). -/

namespace NativeHeaders.FileSystem

variable {files later : FileSystem} {path : Path} {name : String}

/-- What stands somewhere stands in a directory. -/
def IsTree (files : FileSystem) : Prop :=
  ∀ directory name, (files.node? (directory ++ [name])).isSome →
    files.node? directory = some .directory

/-- Everything on the way to something is a directory. -/
theorem IsTree.directory_of_append (h : files.IsTree) {front back : Location} (name : String)
    (hsome : (files.node? (front ++ name :: back)).isSome) :
    files.node? front = some .directory := by
  induction back generalizing front name with
  | nil => exact h front name hsome
  | cons next back ih =>
    have hnext : files.node? (front ++ [name]) = some .directory := by
      refine ih next ?_
      simpa using hsome
    exact h front name (by simp [hnext])

/-- It is enough to look at the nodes. -/
theorem isTree_of_forall
    (h : ∀ entry ∈ files.nodes, files.node? entry.1.dropLast = some .directory) : files.IsTree := by
  intro directory name hsome
  obtain ⟨node, hnode⟩ := Option.isSome_iff_exists.mp hsome
  simpa using h _ (mem_of_node?_eq_some hnode (by simp))

/-- A walk along proper names that leads somewhere leads there whenever something stands there. -/
theorem IsTree.walk_of_walk (h : files.IsTree) {current target : Location} {names : List String}
    (hnames : ∀ name ∈ names, Path.IsEntryName name)
    (hwalk : later.walk current names = .ok target) (hsome : (files.node? target).isSome) :
    files.walk current names = .ok target := by
  obtain rfl := walk_entryNames hnames hwalk
  induction names generalizing current with
  | nil => simp [FileSystem.walk]
  | cons name names ih =>
    rw [List.forall_mem_cons] at hnames
    obtain ⟨⟨hidle, hparent⟩, hnames⟩ := hnames
    rw [walk_cons_eq_ok, if_neg (by simp [hidle]), if_neg hparent] at hwalk ⊢
    obtain ⟨-, hsize, -, hrest⟩ := hwalk
    have happend : current ++ name :: names = current ++ [name] ++ names := by simp
    rw [happend] at hrest ⊢
    refine ⟨h.directory_of_append name hsome, hsize, ?_, ih hnames hrest (happend ▸ hsome)⟩
    -- The name itself stands for what was reached, or for a directory on the way there.
    cases names with
    | nil => exact hsome
    | cons next names =>
      rw [happend] at hsome
      simp [h.directory_of_append next hsome]

/-! ### Where trees come from -/

/-- In a bare file system the working directory and everything above it is a directory. -/
theorem node?_bare {location place : Location} (h : place <+: location) :
    (bare location).node? place = some .directory := by
  by_cases hroot : place = []
  · rw [node?, if_pos hroot]
  · have hpositive := List.length_pos_iff.mpr hroot
    have hmem : (place, Node.directory) ∈ (bare location).nodes := by
      have hlength : place.length - 1 < location.length := by
        have hle := h.length_le
        omega
      refine List.mem_map.mpr ⟨place.length - 1, List.mem_range.mpr hlength, ?_⟩
      rw [Nat.sub_add_cancel hpositive, ← List.prefix_iff_eq_take.mp h]
    cases hnode : (bare location).node? place with
    | none =>
      rw [node?, if_neg hroot, List.lookup_eq_none_iff] at hnode
      simpa using hnode _ hmem
    | some node =>
      obtain ⟨count, -, heq⟩ := List.mem_map.mp (mem_of_node?_eq_some hnode hroot)
      cases heq
      rfl

/-- A bare file system is a tree. -/
theorem isTree_bare (location : Location) : (bare location).IsTree := by
  refine isTree_of_forall fun entry hentry => node?_bare ?_
  obtain ⟨count, -, rfl⟩ := List.mem_map.mp hentry
  exact (List.dropLast_prefix _).trans (List.take_prefix _ _)

/-- **Putting a node into a directory keeps a tree**, unless a directory makes way for a file. -/
theorem IsTree.setNode (h : files.IsTree) {directory : Location} {node : Node}
    (hdirectory : files.node? directory = some .directory)
    (hkept : files.node? (directory ++ [name]) = some .directory → node = .directory) :
    (files.setNode (directory ++ [name]) node).IsTree := by
  intro above entry hsome
  have hself : (files.setNode (directory ++ [name]) node).node? (directory ++ [name]) = some node :=
    node?_setNode_self files node (by simp)
  have habove : files.node? above = some .directory := by
    by_cases heq : above ++ [entry] = directory ++ [name]
    · obtain ⟨rfl, -⟩ := List.append_inj' heq rfl
      exact hdirectory
    · rw [node?_setNode_of_ne files node heq] at hsome
      exact h above entry hsome
  by_cases hplace : above = directory ++ [name]
  · rw [hplace] at habove ⊢
    rw [hself, hkept habove]
  · rwa [node?_setNode_of_ne files node hplace]

/-- Making a directory keeps a tree. -/
theorem IsTree.createDirectory (h : files.IsTree) (hmade : files.createDirectory path = .ok later) :
    later.IsTree := by
  obtain ⟨directory, before, name, -, -, hdirectory, -, -, -, -, rfl⟩ := createDirectory_eq_ok hmade
  exact h.setNode hdirectory fun _ => rfl

/-- Making directories keeps a tree, even if it fails on the way. -/
theorem IsTree.createChain (h : files.IsTree) (paths : List Path) :
    (files.createChain paths).2.IsTree := by
  have hsteps := makesOne_createChain files paths
  generalize (files.createChain paths).2 = later at hsteps ⊢
  induction hsteps with
  | refl => exact h
  | tail _ hstep ih =>
    obtain ⟨path, -, hmade⟩ := hstep
    exact ih.createDirectory hmade

/-- Writing a file keeps a tree. -/
theorem IsTree.write (h : files.IsTree) {content : ByteArray}
    (hwrite : files.write path content = .ok later) : later.IsTree := by
  obtain ⟨directory, before, name, isExecutable, -, -, -, hdirectory, -, -, -, hnode, rfl⟩ :=
    write_eq_ok hwrite
  exact h.setNode hdirectory fun hplace => absurd hplace hnode

/-- Letting a file be executed keeps a tree. -/
theorem IsTree.makeExecutable (h : files.IsTree) (path : Path) :
    (files.makeExecutable path).IsTree := by
  unfold FileSystem.makeExecutable
  split
  · exact h
  · next location hresolve =>
    split
    · next content isExecutable hnode =>
      obtain rfl | ⟨directory, name, rfl⟩ := List.eq_nil_or_concat' location
      · cases hnode
      · exact h.setNode (h directory name (by simp [hnode])) fun hplace => by simp [hnode] at hplace
    · exact h

/-- What does not stand at a place or below it stays when the place is removed. -/
theorem node?_remove {location place : Location} (hplace : ¬location <+: place) :
    FileSystem.node? { files with
      nodes := files.nodes.filter fun entry => !location.isPrefixOf entry.1 } place =
        files.node? place := by
  have hkept : ∀ nodes : List (Location × Node),
      (nodes.filter fun entry => !location.isPrefixOf entry.1).lookup place =
        nodes.lookup place := by
    intro nodes
    induction nodes with
    | nil => rfl
    | cons entry nodes ih =>
      obtain ⟨other, node⟩ := entry
      by_cases hbelow : location <+: other
      · have hne : place ≠ other := fun heq => hplace (heq ▸ hbelow)
        rw [List.filter_cons_of_neg (by simpa using hbelow), ih, List.lookup_cons,
          beq_false_of_ne hne]
      · rw [List.filter_cons_of_pos (by simpa [← Bool.not_eq_true] using hbelow), List.lookup_cons,
          List.lookup_cons, ih]
  rw [node?, node?, hkept]

/-- Removing a file, or a directory with everything below it, keeps a tree. -/
theorem IsTree.remove (h : files.IsTree) (hremove : files.remove path = .ok later) :
    later.IsTree := by
  obtain ⟨location, -, hremove⟩ := Fallible.bind_eq_ok.mp hremove
  cases hremove
  intro directory name hsome
  have hplace : ¬location <+: directory ++ [name] := by
    intro hbelow
    obtain ⟨node, hnode⟩ := Option.isSome_iff_exists.mp hsome
    have hmem := mem_of_node?_eq_some hnode (by simp)
    simp [List.isPrefixOf_iff_prefix.mpr hbelow] at hmem
  rw [node?_remove hplace] at hsome
  rw [node?_remove fun hbelow => hplace (hbelow.trans (List.prefix_append _ _))]
  exact h directory name hsome

/-- What changes a file system. -/
inductive Changes (files : FileSystem) : FileSystem → Prop where
  /-- A directory is made. -/
  | directory {path : Path} {later : FileSystem} (h : files.createDirectory path = .ok later) :
      Changes files later
  /-- A file is written. -/
  | file {path : Path} {content : ByteArray} {later : FileSystem}
      (h : files.write path content = .ok later) : Changes files later
  /-- A file may be executed from then on. -/
  | executable (path : Path) : Changes files (files.makeExecutable path)
  /-- Something is removed. -/
  | removal {path : Path} {later : FileSystem} (h : files.remove path = .ok later) :
      Changes files later

/-- **Every change keeps a tree.** -/
theorem Changes.isTree (h : files.Changes later) (htree : files.IsTree) : later.IsTree := by
  cases h with
  | directory h => exact htree.createDirectory h
  | file h => exact htree.write h
  | executable path => exact htree.makeExecutable path
  | removal h => exact htree.remove h

/-- **Every file system that comes from a bare one is a tree.** -/
theorem isTree_of_changes {location : Location}
    (h : Relation.ReflTransGen Changes (bare location) files) : files.IsTree := by
  induction h with
  | refl => exact isTree_bare location
  | tail _ hchange ih => exact hchange.isTree ih

end NativeHeaders.FileSystem
