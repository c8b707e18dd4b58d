import NativeHeaders.Proofs.FileSystem.Writing

/-! # Files below a directory

The paths of the files below one directory all start in the same way (`Path.lead`), so their walks
lead through the same place first (`resolve_join`). From there on a path of proper names leads to
the location that the names spell out (`walk_entryNames`), and different names to different files.
-/

namespace NativeHeaders

namespace Path

/-! ### Joined paths -/

/-- What stands in front of the names of the files below a directory. -/
def lead (path : Path) : String :=
  match path.text.toList.getLast? with
  | none => ""
  | some '/' => path.text
  | some _ => path.text ++ "/"

/-- The parts that the paths of the files below a directory have in common. -/
def leadParts (path : Path) : List String := (Text.pieces '/' path.lead).dropLast

/-- The name does not start at the root directory. -/
def IsRelative (name : String) : Prop := name.toList.head? ≠ some '/'

instance (name : String) : Decidable (IsRelative name) :=
  inferInstanceAs (Decidable (name.toList.head? ≠ some '/'))

/-- What stands behind a relative name leaves it relative. -/
theorem IsRelative.append {front : String} (h : IsRelative front) (hne : front ≠ "")
    (back : String) : IsRelative (front ++ back) := by
  obtain ⟨c, rest, hfront⟩ := List.exists_cons_of_ne_nil (show front.toList ≠ [] by simpa using hne)
  unfold IsRelative at h ⊢
  rw [String.toList_append, hfront]
  rw [hfront] at h
  exact h

/-- A name with a character that is no dot is the name of an entry. -/
theorem isEntryName_of_mem {part : String} {c : Char} (hmem : c ∈ part.toList) (hdot : c ≠ '.') :
    IsEntryName part := by
  have hne : ∀ count, part ≠ String.ofList (List.replicate count '.') := by
    rintro count rfl
    rw [String.toList_ofList] at hmem
    exact hdot (List.eq_of_mem_replicate hmem)
  have hempty : part ≠ "" := hne 0
  have hsingle : part ≠ "." := hne 1
  exact ⟨by simp [isIdle, hempty, hsingle], hne 2⟩

/-- The name leads down from entry to entry. -/
def IsInner (name : String) : Prop := ∀ part ∈ Text.pieces '/' name, IsEntryName part

/-- A name of proper parts is relative. -/
theorem IsInner.isRelative {name : String} (h : IsInner name) : IsRelative name := by
  intro hfirst
  obtain ⟨rest, hname⟩ := List.head?_eq_some_iff.mp hfirst
  have hempty : "" ∈ Text.pieces '/' name := by simp [Text.pieces, hname, Text.segments_cons]
  exact absurd (h "" hempty).1 (by decide)

/-- A relative name is joined behind the path with the slash that it needs. -/
theorem join_eq (path : Path) {name : String} (h : IsRelative name) :
    path.join name = ⟨path.lead ++ name⟩ := by
  rw [join, lead, if_neg h]
  cases path.text.toList.getLast? with
  | none => simp
  | some last =>
    by_cases hlast : last = '/'
    · subst hlast
      rfl
    · split <;> simp_all

/-- A path that ends in a slash needs no other one. -/
theorem lead_eq_of_slash {path : Path} (h : path.text.toList.getLast? = some '/') :
    path.lead = path.text := by
  rw [lead, h]
  rfl

/-- The text in front of the names is empty or ends in a slash. -/
theorem lead_eq_empty_or_slash (path : Path) :
    path.lead = "" ∨ ∃ front : List Char, path.lead.toList = front ++ ['/'] := by
  unfold lead
  split
  · exact .inl rfl
  · next hlast =>
    obtain ⟨front, hfront⟩ := List.getLast?_eq_some_iff.mp hlast
    exact .inr ⟨front, hfront⟩
  · exact .inr ⟨path.text.toList, by simp⟩

/-- The pieces of a joined path are those of the path and then those of the name. -/
theorem pieces_lead_append (path : Path) (name : String) :
    Text.pieces '/' (path.lead ++ name) = path.leadParts ++ Text.pieces '/' name := by
  unfold leadParts Text.pieces
  obtain hlead | ⟨front, hfront⟩ := path.lead_eq_empty_or_slash
  · simp [hlead]
  · rw [String.toList_append, hfront, List.append_assoc, List.singleton_append,
      Text.segments_append_cons, Text.segments_append_cons]
    simp

/-- The parts of a joined path are those of the path and then the pieces of the name. -/
theorem parts_join (path : Path) {name : String} (h : IsRelative name) :
    (path.join name).parts = path.leadParts ++ Text.pieces '/' name := by
  rw [join_eq path h, parts, pieces_lead_append]

/-- A joined path is absolute exactly if the path is. -/
theorem isAbsolute_join (path : Path) {name : String} (h : IsRelative name) :
    (path.join name).isAbsolute = path.isAbsolute := by
  rw [join_eq path h, isAbsolute, isAbsolute, lead]
  split
  · next hempty =>
    rw [List.getLast?_eq_none_iff] at hempty
    rw [hempty]
    simpa [IsRelative] using h
  · next hlast =>
    -- The path is not empty, so that its first character stays in front.
    obtain ⟨front, hfront⟩ := List.getLast?_eq_some_iff.mp hlast
    cases front <;> simp [hfront]
  · next hne _ hlast =>
    obtain ⟨front, hfront⟩ := List.getLast?_eq_some_iff.mp hlast
    cases front <;> simp [hfront]

/-- The parts of a path are those that the paths below it start with, apart from an empty part
behind a slash at its end. -/
theorem parts_eq_leadParts {path : Path} (h : path.text ≠ "") :
    path.parts = path.leadParts ∨ path.parts = path.leadParts ++ [""] := by
  have hpieces : Text.pieces '/' path.lead = path.leadParts ++ [""] := by
    rw [← String.append_empty (s := path.lead), pieces_lead_append]
    rfl
  rw [lead] at hpieces
  split at hpieces
  · next hempty => exact absurd (by simpa using hempty) h
  · exact .inr hpieces
  · left
    have hslash := Text.pieces_append_slash path.text ""
    rw [String.append_empty, hpieces] at hslash
    exact (List.append_cancel_right hslash).symm

/-- A name below a directory below a directory is one below the outer directory. -/
theorem join_join (path : Path) {name inner : String} (hname : IsRelative name)
    (hslash : name.toList.getLast? = some '/') (hinner : IsRelative inner) :
    (path.join name).join inner = path.join (name ++ inner) := by
  have hlast : (path.lead ++ name).toList.getLast? = some '/' := by
    rw [String.toList_append, List.getLast?_append, hslash]
    rfl
  have hrelative : IsRelative (name ++ inner) := by
    unfold IsRelative at hname ⊢
    obtain ⟨front, hfront⟩ := List.getLast?_eq_some_iff.mp hslash
    cases front <;> simp_all
  have hlead : (path.join name).lead = path.lead ++ name := by
    rw [join_eq path hname]
    exact lead_eq_of_slash hlast
  rw [join_eq _ hinner, hlead, join_eq path hrelative, String.append_assoc]

end Path

namespace FileSystem

variable {files : FileSystem} {path : Path}

/-! ### Where they lead -/

/-- The walk along a joined path starts where the one along the path does. -/
theorem start_join (path : Path) {name : String} (h : Path.IsRelative name) :
    files.start (path.join name) = files.start path := by
  rw [start, start, Path.isAbsolute_join path h]

/-- The way to a file below a directory leads through one place for all of them. -/
theorem resolve_join (path : Path) {name : String} (h : Path.IsRelative name)
    {location : Location} :
    files.resolve (path.join name) = .ok location ↔
      checkPath (path.join name) = .ok () ∧ ∃ between,
        files.walk (files.start path) path.leadParts = .ok between ∧
          files.walk between (Text.pieces '/' name) = .ok location := by
  rw [resolve_eq_ok, start_join path h, Path.parts_join path h, walk_append_eq_ok]

/-- What leads to a directory also leads to what stands below it. -/
theorem walk_append_of_ok {current between : Location} {first second : List String}
    (h : files.walk current first = .ok between) :
    files.walk current (first ++ second) = files.walk between second := by
  induction first generalizing current with
  | nil =>
    cases h
    rfl
  | cons part first ih =>
    rw [walk_cons_eq_ok] at h
    obtain ⟨hdirectory, h⟩ := h
    rw [List.cons_append, walk, requireDirectory_eq_ok.mpr hdirectory]
    show (if Path.isIdle part then _ else _) = _
    split at h
    · next hidle =>
      rw [if_pos hidle]
      exact ih h
    · next hidle =>
      rw [if_neg hidle]
      split at h
      · next hparent =>
        rw [if_pos hparent]
        exact ih h
      · next hparent =>
        rw [if_neg hparent, if_neg (Nat.not_lt.mpr h.1),
          if_neg (by simpa [Option.isSome_iff_ne_none] using h.2.1)]
        exact ih h.2.2

/-- The path of a directory and the paths below it lead through the same place. -/
theorem walk_leadParts {location : Location} (h : files.resolve path = .ok location) :
    files.walk (files.start path) path.leadParts = .ok location := by
  obtain ⟨hcheck, hwalk⟩ := resolve_eq_ok.mp h
  have hne : path.text ≠ "" := by
    rintro hempty
    simp [checkPath, hempty] at hcheck
  obtain hparts | hparts := Path.parts_eq_leadParts hne
  · rwa [hparts] at hwalk
  · rw [hparts, walk_append_eq_ok] at hwalk
    obtain ⟨between, hbetween, hlast⟩ := hwalk
    obtain ⟨-, hlast⟩ := walk_cons_eq_ok.mp hlast
    cases hlast
    exact hbetween

/-- From a directory on, a name below it leads where its own parts lead. -/
theorem resolve_join_of_resolve {location : Location} {name : String}
    (h : files.resolve path = .ok location) (hname : Path.IsRelative name)
    (hcheck : checkPath (path.join name) = .ok ()) :
    files.resolve (path.join name) = files.walk location (Text.pieces '/' name) := by
  rw [resolve, hcheck, start_join path hname, Path.parts_join path hname]
  exact walk_append_of_ok (walk_leadParts h)

/-- In a directory, a walk ends at the name of an entry that it does not have, and passes the name
of one that it has. -/
theorem walk_entry_cases {current : Location} {name : String}
    (hdirectory : files.node? current = some .directory) (hname : Path.IsEntryName name)
    (hsize : name.utf8ByteSize ≤ maxNameBytes) :
    (∀ rest, files.walk current (name :: rest) = .error .notFound) ∨
      ∃ node, files.node? (current ++ [name]) = some node ∧
        ∀ rest, files.walk current (name :: rest) = files.walk (current ++ [name]) rest := by
  have hwalk : ∀ rest, files.walk current (name :: rest) =
      if (files.node? (current ++ [name])).isNone then .error .notFound
      else files.walk (current ++ [name]) rest := by
    intro rest
    rw [walk, requireDirectory_eq_ok.mpr hdirectory]
    show (if Path.isIdle name then _ else _) = _
    rw [if_neg (by simp [hname.1]), if_neg hname.2, if_neg (Nat.not_lt.mpr hsize)]
    rfl
  cases hnode : files.node? (current ++ [name]) with
  | none =>
    left
    intro rest
    rw [hwalk, hnode]
    rfl
  | some node =>
    right
    refine ⟨node, rfl, fun rest => ?_⟩
    rw [hwalk, hnode]
    rfl

/-- A path can be looked up if it has no zero character, is not too long and is not empty. -/
theorem checkPath_eq_ok :
    checkPath path = .ok () ↔
      '\x00' ∉ path.text.toList ∧ path.text.utf8ByteSize ≤ maxPathBytes ∧ path.text ≠ "" := by
  unfold checkPath
  split
  · next hnul => simp_all
  · next hnul =>
    split
    · next hlong =>
      simp only [reduceCtorEq, false_iff]
      omega
    · next hlong =>
      split
      · next hempty => simp_all
      · next hempty => simp_all

/-- The text in front of a path that can be one, can be one. -/
theorem checkPath_of_append {front : String} (back : String)
    (h : checkPath ⟨front ++ back⟩ = .ok ()) (hne : front ≠ "") : checkPath ⟨front⟩ = .ok () := by
  rw [checkPath_eq_ok] at h ⊢
  simp only [String.toList_append, List.mem_append, String.utf8ByteSize_append] at h
  exact ⟨fun hnul => h.1 (.inl hnul), Nat.le_trans (Nat.le_add_right _ _) h.2.1, hne⟩

/-- A name below a directory makes a path if there is room for it behind the path of the directory.
-/
theorem checkPath_join {name : String} (h : checkPath path = .ok ()) (hname : Path.IsRelative name)
    (hnul : '\x00' ∉ name.toList) (hne : name ≠ "")
    (hroom : path.text.utf8ByteSize + 1 + name.utf8ByteSize ≤ maxPathBytes) :
    checkPath (path.join name) = .ok () := by
  rw [checkPath_eq_ok] at h ⊢
  have hlead : path.lead = "" ∨ path.lead = path.text ∨ path.lead = path.text ++ "/" := by
    rw [Path.lead]
    split <;> simp
  rw [Path.join_eq path hname]
  refine ⟨?_, ?_, by simp [hne]⟩
  · obtain hlead | hlead | hlead := hlead <;> simp_all
  · rw [String.utf8ByteSize_append]
    obtain hlead | hlead | hlead := hlead
    · rw [hlead]
      simp
      omega
    · rw [hlead]
      omega
    · rw [hlead, String.utf8ByteSize_append]
      exact hroom

/-- Proper names lead to the location that they spell out. -/
theorem walk_entryNames {current target : Location} {names : List String}
    (hnames : ∀ name ∈ names, Path.IsEntryName name)
    (h : files.walk current names = .ok target) : target = current ++ names := by
  induction names generalizing current with
  | nil =>
    cases h
    exact (List.append_nil _).symm
  | cons name names ih =>
    obtain ⟨hidle, hparent⟩ := hnames name List.mem_cons_self
    rw [walk_cons_eq_ok, if_neg (by simp [hidle]), if_neg hparent] at h
    rw [ih (fun other hother => hnames other (List.mem_cons_of_mem _ hother)) h.2.2.2,
      List.append_assoc, List.singleton_append]

/-- A walk through a directory passes it. -/
theorem node?_of_walk_cons {current target : Location} {name : String} {names : List String}
    (h : files.walk current (name :: names) = .ok target) :
    files.node? current = some .directory :=
  (walk_cons_eq_ok.mp h).1

/-- The way to a file below a directory leads through the directory, with or without a slash behind
its path. -/
theorem resolve_join_slash {front name : String} {location : Location}
    (hfront : Path.IsRelative front) (hne : front ≠ "")
    (h : files.resolve (path.join (front ++ "/" ++ name)) = .ok location) :
    ∃ directory, files.resolve (path.join front) = .ok directory ∧
      files.resolve (path.join (front ++ "/")) = .ok directory ∧
      files.node? directory = some .directory ∧
      files.walk directory (Text.pieces '/' name) = .ok location := by
  have hslash : Path.IsRelative (front ++ "/") := hfront.append hne "/"
  have hwhole : Path.IsRelative (front ++ "/" ++ name) := hslash.append (by simp) name
  rw [resolve_join path hwhole, Text.pieces_append_slash, Path.join_eq path hwhole] at h
  obtain ⟨hcheck, between, hlead, hwalk⟩ := h
  obtain ⟨directory, hdirectory, hwalk⟩ := walk_append_eq_ok.mp hwalk
  obtain ⟨first, rest, hpieces⟩ := List.exists_cons_of_ne_nil (Text.pieces_ne_nil '/' name)
  have hnode : files.node? directory = some .directory :=
    node?_of_walk_cons (hpieces ▸ hwalk)
  refine ⟨directory, ?_, ?_, hnode, hwalk⟩
  · rw [resolve_join path hfront, Path.join_eq path hfront]
    refine ⟨checkPath_of_append ("/" ++ name) ?_ (by simp [hne]), between, hlead, hdirectory⟩
    simpa only [String.append_assoc] using hcheck
  · rw [resolve_join path hslash, Path.join_eq path hslash]
    refine ⟨checkPath_of_append name ?_ (by simp [hne]), between, hlead, ?_⟩
    · simpa only [String.append_assoc] using hcheck
    · have hparts := Text.pieces_append_slash front ""
      rw [String.append_empty] at hparts
      rw [hparts, walk_append_eq_ok]
      exact ⟨directory, hdirectory, walk_cons_eq_ok.mpr ⟨hnode, rfl⟩⟩

/-! ### Reading and listing -/

/-- A path that leads to a directory is one of a directory. -/
theorem isDirectory_of_resolve {location : Location} (h : files.resolve path = .ok location)
    (hnode : files.node? location = some .directory) : files.isDirectory path = true := by
  rw [isDirectory, nodeAt?, h]
  exact decide_eq_true hnode

/-- The path of a directory leads to it. -/
theorem exists_resolve_of_isDirectory (h : files.isDirectory path = true) :
    ∃ location, files.resolve path = .ok location ∧ files.node? location = some .directory := by
  have hnode : files.nodeAt? path = some .directory := of_decide_eq_true h
  rw [nodeAt?] at hnode
  split at hnode
  · cases hnode
  · next location hresolve => exact ⟨location, hresolve, hnode⟩

/-- The directory to which a path leads is listed by the entries at its location. -/
theorem list_of_resolve {location : Location} (h : files.resolve path = .ok location)
    (hnode : files.node? location = some .directory) :
    files.list path = .ok (files.entriesAt location) := by
  rw [list, h]
  show files.requireDirectory location >>= _ = _
  rw [requireDirectory_eq_ok.mpr hnode]
  rfl

/-- A path leads to a file exactly if this file can be read. -/
theorem isFile_eq_isOk (files : FileSystem) (path : Path) :
    files.isFile path = (files.read path).toOption.isSome := by
  rw [isFile, nodeAt?, read]
  cases hresolve : files.resolve path with
  | error cause => rfl
  | ok location =>
    simp only [bind, Except.bind, contentAt?]
    cases files.node? location with
    | none => rfl
    | some node => cases node <;> rfl

/-- What stands somewhere below the root directory is one of the nodes. -/
theorem mem_of_node?_eq_some {location : Location} {node : Node}
    (h : files.node? location = some node) (hne : location ≠ []) :
    (location, node) ∈ files.nodes := by
  rw [node?, if_neg hne] at h
  obtain ⟨before, after, hnodes, -⟩ := List.lookup_eq_some_iff.mp h
  rw [hnodes]
  simp

/-- What stands in a directory is one of its entries. -/
theorem mem_entriesAt {directory : Location} {name : String} {node : Node}
    (h : files.node? (directory ++ [name]) = some node) : name ∈ files.entriesAt directory := by
  have hmem := mem_of_node?_eq_some h (by simp)
  have hname : entryName? directory (directory ++ [name]) = some name := by
    simp [entryName?, Text.afterPrefix?]
  rw [entriesAt, List.mem_filterMap]
  exact ⟨_, hmem, hname⟩

/-- Sorted names are in order. -/
theorem pairwise_mergeSort_names (names : List String) :
    (names.mergeSort fun first second => !decide (second < first)).Pairwise (· ≤ ·) := by
  have hle : ∀ first second : String, (!decide (second < first)) = true ↔ first ≤ second := by
    intro first second
    rw [Bool.not_eq_true', decide_eq_false_iff_not, String.not_lt]
  have hsorted : (names.mergeSort fun first second => !decide (second < first)).Pairwise
      fun first second => !decide (second < first) := by
    apply List.pairwise_mergeSort
    · intro first second third
      rw [hle, hle, hle]
      exact String.le_trans
    · intro first second
      rw [Bool.or_eq_true, hle, hle]
      exact String.le_total first second
  exact hsorted.imp fun {first second} => (hle first second).mp

end FileSystem

end NativeHeaders
