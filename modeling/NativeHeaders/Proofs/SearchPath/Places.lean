import NativeHeaders.Proofs.SearchPath.Trees
import NativeHeaders.SearchPath

/-! # Searches place by place

A search for a class goes through roots, through the trees of each root, and through the names of a
file in each tree. All of these are one list of places (`SearchPath.places`), and the search is the
one that goes through this list (`resolve_eq_findSomeM?`). How far it gets is therefore a fact about
one list, too: `comesToOverlong_iff` says when it comes to a file of a size that no buffer can have,
which an archive may declare whatever the file really is. -/

namespace NativeHeaders

/-! ### Searches through lists -/

section

variable {ε α β γ : Type}

/-- **A search comes to a place of some kind** exactly if there is one in front of which every place
holds nothing. -/
theorem Search.comesTo_iff {search : α → Except ε (Option β)} {isSuch : α → Bool}
    {places : List α} :
    Search.comesTo search isSuch places = true ↔
      ∃ before place after, places = before ++ place :: after ∧
        (∀ other ∈ before, search other = .ok none) ∧ isSuch place = true := by
  induction places with
  | nil => simp [comesTo]
  | cons first places ih =>
    rw [comesTo, Bool.or_eq_true]
    constructor
    · rintro (hsuch | hrest)
      · exact ⟨[], first, places, rfl, by simp, hsuch⟩
      · -- The search goes on, so that the first place holds nothing.
        split at hrest
        · next hnone =>
          obtain ⟨before, place, after, rfl, hbefore, hsuch⟩ := ih.mp hrest
          exact ⟨first :: before, place, after, rfl,
            List.forall_mem_cons.mpr ⟨hnone, hbefore⟩, hsuch⟩
        · cases hrest
    · rintro ⟨before, place, after, hplaces, hbefore, hsuch⟩
      cases before with
      | nil =>
        obtain ⟨rfl, -⟩ := List.cons_eq_cons.mp hplaces
        exact .inl hsuch
      | cons other before =>
        obtain ⟨rfl, rfl⟩ := List.cons_eq_cons.mp hplaces
        rw [List.forall_mem_cons] at hbefore
        rw [hbefore.1]
        exact .inr (ih.mpr ⟨before, place, after, rfl, hbefore.2, hsuch⟩)

/-- A search through a list with an end goes on there if nothing is found in front of it. -/
theorem Fallible.findSomeM?_append {search : α → Except ε (Option β)} (places others : List α) :
    (places ++ others).findSomeM? search =
      places.findSomeM? search >>= fun found =>
        if found.isSome then pure found else others.findSomeM? search := by
  induction places with
  | nil => rfl
  | cons first places ih =>
    rw [List.cons_append, List.findSomeM?_cons, List.findSomeM?_cons, ih, bind_assoc]
    refine bind_congr fun found => ?_
    cases found <;> rfl

/-- `(places.map change).findSomeM? search`: the places may be changed as they are searched. -/
theorem Fallible.findSomeM?_map {search : α → Except ε (Option β)} {change : γ → α}
    (places : List γ) :
    (places.map change).findSomeM? search = places.findSomeM? fun place => search (change place) := by
  induction places with
  | nil => rfl
  | cons first places ih => rw [List.map_cons, List.findSomeM?_cons, List.findSomeM?_cons, ih]

/-- A search through the places of all groups is a search through the groups. -/
theorem Fallible.findSomeM?_flatMap {search : α → Except ε (Option β)} {placesOf : γ → List α}
    (groups : List γ) :
    (groups.flatMap placesOf).findSomeM? search =
      groups.findSomeM? fun group => (placesOf group).findSomeM? search := by
  induction groups with
  | nil => rfl
  | cons group groups ih =>
    rw [List.flatMap_cons, findSomeM?_append, ih, List.findSomeM?_cons]
    refine bind_congr fun found => ?_
    cases found <;> rfl

end

variable {path : SearchPath} {files : FileSystem} {name : ClassName}

/-! ### Places of a class -/

/-- A root looks for a class in its trees. -/
theorem Root.find_eq_findSomeM? (root : Root) (files : FileSystem) (name : ClassName) :
    root.find files name =
      (root.treesFor name).findSomeM? fun tree => tree.find files name.filePath := by
  have hsingle : ∀ tree : ClassTree, tree.find files name.filePath =
      [tree].findSomeM? fun tree => tree.find files name.filePath := by
    intro tree
    rw [List.findSomeM?_cons]
    rcases tree.find files name.filePath with _ | _ | _ <;> rfl
  have hmodules : ∀ directory : ModuleDirectory, directory.find files name =
      ((directory.searched name).map Module.tree).findSomeM? fun tree =>
        tree.find files name.filePath := by
    intro directory
    rw [Fallible.findSomeM?_map, ModuleDirectory.find]
  cases root with
  | classes tree => exact hsingle tree
  | modules directory => exact hmodules directory
  | installation home layout =>
    cases layout with
    | modules directory => exact hmodules directory
    | archive tree => exact hsingle tree

/-- **A search for a class is one search through its places.** `resolve` gives what
`SearchPath.places`, looked at one after the other, give first. -/
theorem SearchPath.resolve_eq_findSomeM? (path : SearchPath) (files : FileSystem)
    (name : ClassName) :
    path.resolve files name =
      (path.places name).findSomeM? fun place => place.1.findExactly files place.2 := by
  simp only [resolve, places, Fallible.findSomeM?_flatMap, Fallible.findSomeM?_map,
    Root.find_eq_findSomeM?, ClassTree.find]

/-! ### Sizes that no buffer can have -/

/-- `readable?` gives the entry that counts for the name, if it can be read. -/
theorem Archive.readable?_eq_some {archive : Archive} {name : String} {entry : Archive.Entry} :
    archive.readable? name = .ok (some entry) ↔
      archive.find? name = some entry ∧ entry.isReadable = true := by
  rw [readable?]
  cases archive.find? name with
  | none => simp
  | some found =>
    -- An encrypted entry cannot be read, whatever its method is.
    by_cases hencrypted : found.isEncrypted = true
    · simp only [hencrypted, if_true, reduceCtorEq, Option.some.injEq, false_iff, not_and]
      rintro rfl
      simp [Entry.isReadable, hencrypted]
    · by_cases hreadable : found.isReadable = true
      · simp only [hencrypted, hreadable, if_true, Bool.false_eq_true, if_false, Except.ok.injEq,
          Option.some.injEq]
        constructor
        · rintro rfl
          exact ⟨rfl, hreadable⟩
        · exact And.left
      · simp only [hencrypted, hreadable, Bool.false_eq_true, if_false, reduceCtorEq,
          Option.some.injEq, false_iff, not_and]
        rintro rfl
        exact hreadable

/-- The archive declares `2 ^ 63` bytes or more for the file with the name below its base. -/
def OpenedArchive.DeclaresOverlong (opened : OpenedArchive) (name : String) : Prop :=
  ∃ entry, opened.archive.find? (opened.base ++ name) = some entry ∧
    entry.isReadable = true ∧ entry.isFile = true ∧ 0x8000000000000000 ≤ entry.size

/-- A buffer is asked for that cannot be had exactly if the archive `DeclaresOverlong`. -/
theorem OpenedArchive.isOverlong_iff {opened : OpenedArchive} {name : String} :
    opened.isOverlong name = true ↔ opened.DeclaresOverlong name := by
  have hsize : ∀ entry : Archive.Entry, entry.isOverlong = true ↔ 0x8000000000000000 ≤ entry.size := by
    intro entry
    rw [Archive.Entry.isOverlong, decide_eq_true_iff]
    exact Iff.rfl
  unfold DeclaresOverlong isOverlong
  simp only [← and_assoc, ← Archive.readable?_eq_some]
  constructor
  · intro hoverlong
    split at hoverlong
    · next entry hreadable =>
      rw [Bool.and_eq_true, hsize] at hoverlong
      exact ⟨entry, ⟨hreadable, hoverlong.1⟩, hoverlong.2⟩
    · cases hoverlong
  · rintro ⟨entry, ⟨hreadable, hfile⟩, hlong⟩
    rw [hreadable]
    exact Bool.and_eq_true_iff.mpr ⟨hfile, (hsize entry).mpr hlong⟩

/-- The tree is an archive that declares `2 ^ 63` bytes or more for the file with the name. -/
def ClassTree.DeclaresOverlong (tree : ClassTree) (name : String) : Prop :=
  ∃ opened, tree.storage = .archive opened ∧ opened.DeclaresOverlong name

/-- `isOverlong` decides `DeclaresOverlong`; a directory declares no sizes. -/
theorem ClassTree.isOverlong_iff {tree : ClassTree} {name : String} :
    tree.isOverlong name = true ↔ tree.DeclaresOverlong name := by
  unfold DeclaresOverlong isOverlong
  cases tree.storage with
  | directory => simp
  | archive opened => simp [OpenedArchive.isOverlong_iff]

/-- The search for a class comes to a file for which its archive declares `2 ^ 63` bytes or more: it
finds nothing in the places in front of this one. -/
def SearchPath.ComesToOverlong (path : SearchPath) (files : FileSystem) (name : ClassName) : Prop :=
  ∃ before tree file after, path.places name = before ++ (tree, file) :: after ∧
    (∀ place ∈ before, place.1.findExactly files place.2 = .ok none) ∧ tree.DeclaresOverlong file

/-- `comesToOverlong` decides `ComesToOverlong`. -/
theorem SearchPath.comesToOverlong_iff :
    path.comesToOverlong files name = true ↔ path.ComesToOverlong files name := by
  simp only [comesToOverlong, Search.comesTo_iff, ClassTree.isOverlong_iff, ComesToOverlong,
    Prod.exists]

/-- No archive in which a class may be looked for declares `2 ^ 63` bytes or more for a file. -/
def SearchPath.IsModest (path : SearchPath) : Prop :=
  ∀ name, ∀ place ∈ path.places name, ∀ opened, place.1.storage = .archive opened →
    ∀ entry ∈ opened.archive.entries, entry.size < 0x8000000000000000

/-- If no archive declares such a file, no search comes to one. -/
theorem SearchPath.IsModest.not_comesToOverlong (h : path.IsModest) :
    ¬path.ComesToOverlong files name := by
  rintro ⟨before, tree, file, after, hplaces, -, opened, hstorage, entry, hentry, -, -, hlong⟩
  have hplace : (tree, file) ∈ path.places name := by simp [hplaces]
  have hmem := (OpenedArchive.mem_entries_of_find? hentry).1
  exact absurd (h name _ hplace opened hstorage entry hmem) (Nat.not_lt.mpr hlong)

end NativeHeaders
