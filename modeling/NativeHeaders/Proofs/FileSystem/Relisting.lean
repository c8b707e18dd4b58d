import Mathlib.Data.List.Forall2
import Mathlib.Data.List.Nodup
import NativeHeaders.Proofs.FileSystem.Below

/-! # Directories listed in another order

A file system is free in the order in which it lists the entries of a directory. Two file systems
that differ in this order, and for the rest in nothing but what some files hold, are `Relisted`: all
paths lead to the same places in both, a directory lists the same names, and the files of a directory
in the order of their names are the same. -/

namespace NativeHeaders

/-- In a list in another order the same item is found, if only one item can be found. -/
theorem findSome?_eq_of_perm {α β : Type} {items others : List α} {found? : α → Option β}
    (h : items.Perm others)
    (hone : ∀ first ∈ items, ∀ second ∈ items, (found? first).isSome → (found? second).isSome →
      first = second) : items.findSome? found? = others.findSome? found? := by
  induction h with
  | nil => rfl
  | cons item _ ih =>
    rw [List.findSome?_cons, List.findSome?_cons, ih fun first hfirst second hsecond =>
      hone first (List.mem_cons_of_mem _ hfirst) second (List.mem_cons_of_mem _ hsecond)]
  | swap first second items =>
    simp only [List.findSome?_cons]
    cases hfirst : found? first with
    | none => rfl
    | some _ =>
      cases hsecond : found? second with
      | none => rfl
      | some _ =>
        have heq : first = second := hone first (by simp) second (by simp) (by simp [hfirst])
          (by simp [hsecond])
        rw [heq, hsecond] at hfirst
        exact hfirst.symm ▸ rfl
  | trans hfirst _ ih ih' =>
    rw [ih hone, ih' fun first hmem second hmem' =>
      hone first (hfirst.mem_iff.mpr hmem) second (hfirst.mem_iff.mpr hmem')]

/-- The same thing in two file systems: a directory, or two files whose contents are alike. -/
inductive Node.Alike (alike : ByteArray → ByteArray → Prop) : Node → Node → Prop where
  /-- A directory. -/
  | directory : Alike alike .directory .directory
  /-- Two files, both to be executed or neither. -/
  | file {content other : ByteArray} {isExecutable : Bool} (h : alike content other) :
      Alike alike (.file content isExecutable) (.file other isExecutable)

namespace FileSystem

variable {alike : Location → ByteArray → ByteArray → Prop} {files others : FileSystem}

/-- Two file systems with the same directories and files, which list them in different orders
perhaps. At each location the contents of files may differ in so far as they are still alike. -/
structure Relisted (alike : Location → ByteArray → ByteArray → Prop) (files others : FileSystem) :
    Prop where
  /-- Relative paths start in the same place. -/
  workingDirectory : files.workingDirectory = others.workingDirectory
  /-- In each place there is the same thing. -/
  nodes : ∀ location, Option.Rel (Node.Alike (alike location)) (files.node? location)
    (others.node? location)
  /-- Each directory lists the same names, in whatever order. -/
  entries : ∀ directory, (files.entriesAt directory).Perm (others.entriesAt directory)

/-! ### Permuted nodes -/

/-- Two nodes stand in the same place and are alike there. -/
def AlikeNodes (alike : Location → ByteArray → ByteArray → Prop) (entry other : Location × Node) :
    Prop := entry.1 = other.1 ∧ entry.2.Alike (alike entry.1) other.2

/-- In a list without repeated locations, the order does not matter for a lookup. -/
theorem lookup_eq_of_perm {nodes others : List (Location × Node)} (h : nodes.Perm others)
    (hnodup : (nodes.map Prod.fst).Nodup) (location : Location) :
    nodes.lookup location = others.lookup location := by
  rw [List.lookup_eq_findSome?, List.lookup_eq_findSome?]
  refine findSome?_eq_of_perm h fun first hfirst second hsecond hsome hsome' => ?_
  have hkey : ∀ entry : Location × Node,
      (if location == entry.1 then some entry.2 else none).isSome → entry.1 = location := by
    intro entry hentry
    by_contra hne
    simp [Ne.symm hne] at hentry
  exact List.inj_on_of_nodup_map hnodup hfirst hsecond ((hkey _ hsome).trans (hkey _ hsome').symm)

/-- Lists that are alike entry by entry give alike nodes for a location. -/
theorem lookup_rel {nodes others : List (Location × Node)}
    (h : List.Forall₂ (AlikeNodes alike) nodes others) (location : Location) :
    Option.Rel (Node.Alike (alike location)) (nodes.lookup location) (others.lookup location) := by
  induction h with
  | nil => exact .none
  | @cons entry other nodes others hentry _ ih =>
    obtain ⟨place, node⟩ := entry
    obtain ⟨place', node'⟩ := other
    obtain ⟨rfl, hnode⟩ := hentry
    rw [List.lookup_cons, List.lookup_cons]
    by_cases hplace : location = place
    · subst hplace
      simpa using Option.Rel.some hnode
    · rw [beq_false_of_ne hplace]
      exact ih

/-- The entries of a directory can be read off the locations alone. -/
theorem entriesAt_eq_filterMap (files : FileSystem) (directory : Location) :
    files.entriesAt directory =
      (files.nodes.map Prod.fst).filterMap (entryName? directory) := by
  rw [List.filterMap_map]
  rfl

/-- **What counts as another order**: nodes that are alike one by one, put in any order. -/
theorem relisted_of_perm {between : List (Location × Node)}
    (hworking : files.workingDirectory = others.workingDirectory)
    (hnodup : (files.nodes.map Prod.fst).Nodup)
    (halike : List.Forall₂ (AlikeNodes alike) files.nodes between)
    (hperm : between.Perm others.nodes) : files.Relisted alike others := by
  have hlocations : files.nodes.map Prod.fst = between.map Prod.fst := by
    rw [← List.forall₂_eq_eq_eq, List.forall₂_map_left_iff, List.forall₂_map_right_iff]
    exact halike.imp fun _ _ hentry => hentry.1
  refine ⟨hworking, fun location => ?_, fun directory => ?_⟩
  · unfold node?
    split
    · exact .some .directory
    · rw [← lookup_eq_of_perm hperm (hlocations ▸ hnodup)]
      exact lookup_rel halike location
  · rw [entriesAt_eq_filterMap, entriesAt_eq_filterMap, hlocations]
    exact (hperm.map Prod.fst).filterMap _

namespace Relisted

/-! ### Paths -/

/-- Relisted file systems (`Relisted`) have something at the same locations. -/
theorem isNone_node? (h : files.Relisted alike others) (location : Location) :
    (files.node? location).isNone = (others.node? location).isNone := by
  have hnode := h.nodes location
  revert hnode
  cases files.node? location <;> cases others.node? location <;> rintro ⟨⟩ <;> rfl

/-- They have their directories at the same locations. -/
theorem requireDirectory_eq (h : files.Relisted alike others) (location : Location) :
    files.requireDirectory location = others.requireDirectory location := by
  have hnode := h.nodes location
  unfold requireDirectory
  revert hnode
  cases files.node? location <;> cases others.node? location <;> rintro ⟨⟩
  · rfl
  · next hnode => cases hnode <;> rfl

/-- Names lead to the same places in them. -/
theorem walk_eq (h : files.Relisted alike others) (current : Location) (parts : List String) :
    files.walk current parts = others.walk current parts := by
  induction parts generalizing current with
  | nil => rfl
  | cons part rest ih => simp only [walk, h.requireDirectory_eq, h.isNone_node?, ih]

/-- A path leads to the same place, or fails to lead anywhere for the same reason. -/
theorem resolve_eq (h : files.Relisted alike others) (path : Path) :
    files.resolve path = others.resolve path := by
  simp only [resolve, start, h.workingDirectory, h.walk_eq]

/-- A path leads to the same thing, or to two files that differ in their contents only. -/
theorem nodeAt?_cases (h : files.Relisted alike others) (path : Path) :
    files.nodeAt? path = others.nodeAt? path ∨
      ∃ content other isExecutable, files.nodeAt? path = some (.file content isExecutable) ∧
        others.nodeAt? path = some (.file other isExecutable) := by
  unfold nodeAt?
  rw [h.resolve_eq path]
  cases others.resolve path with
  | error cause => exact .inl rfl
  | ok location =>
    have hnode := h.nodes location
    dsimp only
    revert hnode
    cases files.node? location <;> cases others.node? location <;> rintro ⟨⟩
    · exact .inl rfl
    · next hnode =>
      cases hnode with
      | directory => exact .inl rfl
      | file _ => exact .inr ⟨_, _, _, rfl, rfl⟩

/-- They have the same files. -/
theorem isFile_eq (h : files.Relisted alike others) (path : Path) :
    files.isFile path = others.isFile path := by
  unfold isFile
  obtain hnode | ⟨content, other, isExecutable, hfirst, hsecond⟩ := h.nodeAt?_cases path
  · rw [hnode]
  · rw [hfirst, hsecond]

/-- They have the same directories. -/
theorem isDirectory_eq (h : files.Relisted alike others) (path : Path) :
    files.isDirectory path = others.isDirectory path := by
  unfold isDirectory
  obtain hnode | ⟨content, other, isExecutable, hfirst, hsecond⟩ := h.nodeAt?_cases path
  · rw [hnode]
  · rw [hfirst, hsecond]
    simp

/-- The same paths exist in them. -/
theorem exists?_eq (h : files.Relisted alike others) (path : Path) :
    files.exists? path = others.exists? path := by
  unfold exists?
  obtain hnode | ⟨content, other, isExecutable, hfirst, hsecond⟩ := h.nodeAt?_cases path
  · rw [hnode]
  · rw [hfirst, hsecond]
    rfl

/-- The same files may be executed in them. -/
theorem isExecutable_eq (h : files.Relisted alike others) (path : Path) :
    files.isExecutable path = others.isExecutable path := by
  unfold isExecutable
  obtain hnode | ⟨content, other, isExecutable, hfirst, hsecond⟩ := h.nodeAt?_cases path
  · rw [hnode]
  · rw [hfirst, hsecond]

/-! ### Reading and listing -/

/-- Reading a path fails in both, or gives contents that are alike in the place to which it leads. -/
theorem read_sameOutcome (h : files.Relisted alike others) (path : Path) :
    Fallible.SameOutcome
      (fun content other => ∃ location, files.resolve path = .ok location ∧
        alike location content other) (files.read path) (others.read path) := by
  unfold read
  rw [← h.resolve_eq path]
  refine .bind_same fun location hresolve => ?_
  have hnode := h.nodes location
  unfold contentAt?
  revert hnode
  cases files.node? location <;> cases others.node? location <;> rintro ⟨⟩
  · exact .error _
  · next hnode =>
    cases hnode with
    | directory => exact .error _
    | file hcontent => exact .ok ⟨location, hresolve, hcontent⟩

/-- A file whose contents can only be alike if they are equal holds the same in both. -/
theorem read_eq (h : files.Relisted alike others) {path : Path}
    (hstrict : ∀ location content other, files.resolve path = .ok location →
      alike location content other → content = other) : files.read path = others.read path := by
  refine ((h.read_sameOutcome path).mono ?_).eq
  rintro content other ⟨location, hresolve, hcontent⟩
  exact hstrict location content other hresolve hcontent

/-- A directory is listed in both with the same names, in whatever order, or it cannot be listed in
either. -/
theorem list_sameOutcome (h : files.Relisted alike others) (path : Path) :
    Fallible.SameOutcome List.Perm (files.list path) (others.list path) := by
  unfold list
  rw [← h.resolve_eq path]
  refine .bind_same fun location _ => ?_
  rw [← h.requireDirectory_eq location]
  refine .bind_same fun _ _ => ?_
  exact .ok (h.entries location)

/-- **In the order of their names, the files of a directory are the same.** -/
theorem filesIn_eq (h : files.Relisted alike others) (directory : Path)
    (extensions : List String) :
    files.filesIn directory extensions = others.filesIn directory extensions := by
  unfold filesIn
  refine ((h.list_sameOutcome directory).bind ?_).eq
  intro names names' _ _ hperm
  -- Names are compared totally, and so there is only one way to put them in order.
  have hnames : (names.mergeSort fun first second => !decide (second < first)) =
      names'.mergeSort fun first second => !decide (second < first) := by
    have hmerged := ((List.mergeSort_perm names fun first second => !decide (second < first)).trans
      hperm).trans (List.mergeSort_perm names' fun first second => !decide (second < first)).symm
    exact hmerged.eq_of_pairwise (fun _ _ _ _ => String.le_antisymm)
      (pairwise_mergeSort_names names) (pairwise_mergeSort_names names')
  refine .of_eq ?_
  rw [hnames]
  simp only [h.isFile_eq]

end Relisted

end FileSystem

end NativeHeaders
