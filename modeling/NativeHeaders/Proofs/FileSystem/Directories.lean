import Mathlib.Data.List.DropRight
import NativeHeaders.Proofs.FileSystem.Below

/-! # Directories on the way of a path

Only some parts of a path say where it leads, its steps. The paths above a path have the first ones
of its steps (`steps_of_mem_ancestors`). So all directories that are made for a path stand where its
first steps lead, and nothing stood there (`createDirectories_within`). -/

namespace NativeHeaders

namespace Path

variable {path parent : Path}

/-- The parts that say where the path leads. -/
def steps (path : Path) : List String := path.parts.filter (!isIdle ·)

/-- No part of a path has a slash in it. -/
theorem slash_notMem_of_mem_parts {part : String} (h : part ∈ path.parts) :
    '/' ∉ part.toList := by
  obtain ⟨piece, hpiece, rfl⟩ := List.mem_map.mp h
  rw [String.toList_ofList]
  exact Text.not_mem_of_mem_segments hpiece

/-- The parts of a text that is put together from parts. -/
theorem parts_intercalate {parts : List String} (hne : parts ≠ [])
    (h : ∀ part ∈ parts, '/' ∉ part.toList) :
    Path.parts ⟨"/".intercalate parts⟩ = parts :=
  Text.pieces_intercalate hne h

/-- A path starts at the root directory if its first part is empty and another one follows. -/
theorem isAbsolute_iff :
    path.isAbsolute = true ↔ ∃ part rest, path.parts = "" :: part :: rest := by
  unfold isAbsolute parts Text.pieces
  cases path.text.toList with
  | nil => simp
  | cons c chars =>
    by_cases hslash : c = '/'
    · obtain ⟨first, rest, hchars⟩ :=
        List.exists_cons_of_ne_nil (Text.segments_ne_nil '/' chars)
      simp [hslash, Text.segments_cons, hchars]
    · obtain ⟨first, rest, hchars⟩ :=
        List.exists_cons_of_ne_nil (Text.segments_ne_nil '/' chars)
      simp [hslash, Text.segments_cons, hchars, Text.consToHead]

/-- Idle parts at the end count for nothing, whichever of them are left out. -/
theorem filter_withoutEnd {isLast : String → Bool}
    (h : ∀ part, isLast part = true → isIdle part = true) (parts : List String) :
    (parts.reverse.dropWhile isLast).reverse.filter (!isIdle ·) =
      parts.filter (!isIdle ·) := by
  have hend : (parts.rtakeWhile isLast).filter (!isIdle ·) = [] := by
    rw [List.filter_eq_nil_iff]
    intro part hpart
    simp [h part (List.mem_rtakeWhile_imp hpart)]
  calc (parts.rdropWhile isLast).filter (!isIdle ·)
      = (parts.rdropWhile isLast ++ parts.rtakeWhile isLast).filter (!isIdle ·) := by
        rw [List.filter_append, hend, List.append_nil]
    _ = parts.filter (!isIdle ·) := by rw [List.rdropWhile_append_rtakeWhile]

/-! ### Paths above a path -/

/-- The first part of a path stands for the root directory, or it is idle, or it counts like the
others. -/
theorem splitLead_cases (path : Path) :
    path.parts = path.splitLead.1 ++ path.splitLead.2 ∧
      (path.splitLead.1 = [""] ∧ path.isAbsolute = true ∨
        (path.splitLead.1 = ["."] ∨ path.splitLead.1 = []) ∧ path.isAbsolute = false) := by
  unfold splitLead
  split
  · next rest hparts =>
    split
    · next habsolute => exact ⟨hparts, .inl ⟨rfl, habsolute⟩⟩
    · next habsolute => exact ⟨hparts, .inr ⟨.inr rfl, by simpa using habsolute⟩⟩
  · next rest hparts =>
    refine ⟨hparts, .inr ⟨.inl rfl, ?_⟩⟩
    rw [← Bool.not_eq_true, isAbsolute_iff, hparts]
    simp
  · next hempty _ =>
    refine ⟨rfl, .inr ⟨.inr rfl, ?_⟩⟩
    rw [← Bool.not_eq_true, isAbsolute_iff]
    rintro ⟨part, rest, hparts⟩
    exact hempty _ hparts

/-- Dropping idle parts at the end never leaves a single empty part. -/
theorem withoutIdleEnd_ne_empty (parts : List String) : withoutIdleEnd parts ≠ [""] := by
  intro h
  have hlast := List.rdropWhile_last_not isIdle parts
    (show withoutIdleEnd parts ≠ [] by simp [h])
  exact hlast (by simp [show parts.rdropWhile isIdle = [""] from h, isIdle])

/-- A path that starts like another one starts at the same directory. -/
theorem isAbsolute_of_front (hfront : parent.parts <+: path.parts)
    (h : path.isAbsolute = true → 1 < parent.parts.length) :
    parent.isAbsolute = path.isAbsolute := by
  obtain ⟨back, hparts⟩ := hfront
  rw [Bool.eq_iff_iff]
  constructor
  · rw [isAbsolute_iff, isAbsolute_iff]
    rintro ⟨part, rest, hfront⟩
    exact ⟨part, rest ++ back, by rw [← hparts, hfront]; rfl⟩
  · intro habsolute
    have hlength := h habsolute
    obtain ⟨part, rest, hwhole⟩ := isAbsolute_iff.mp habsolute
    rw [isAbsolute_iff]
    match hfront : parent.parts with
    | [] | [_] => simp [hfront] at hlength
    | first :: second :: front =>
      rw [hfront, hwhole] at hparts
      obtain ⟨rfl, -⟩ := List.cons_eq_cons.mp hparts
      exact ⟨second, front, rfl⟩

/-- What is left of a path without its last step, and without idle parts behind the step before. -/
theorem above_of_splitLead {lead rest : List String} (hparts : path.parts = lead ++ rest)
    (hidle : lead.filter (!isIdle ·) = []) (hrest : withoutIdleEnd rest ≠ []) :
    lead ++ withoutIdleEnd (withoutIdleEnd rest).dropLast <+: path.parts ∧
      (lead ++ withoutIdleEnd (withoutIdleEnd rest).dropLast).filter (!isIdle ·) =
        path.steps.dropLast := by
  have hkept : ∀ parts, withoutIdleEnd parts <+: parts := List.rdropWhile_prefix isIdle
  have hfilter : ∀ parts, (withoutIdleEnd parts).filter (!isIdle ·) = parts.filter (!isIdle ·) :=
    filter_withoutEnd fun _ => id
  constructor
  · rw [hparts, List.prefix_append_right_inj]
    have hshorter : (withoutIdleEnd rest).dropLast <+: withoutIdleEnd rest :=
      List.dropLast_prefix _
    exact (hkept _).trans (hshorter.trans (hkept rest))
  · -- The last part that is not idle is the last step.
    have hlast : isIdle ((withoutIdleEnd rest).getLast hrest) = false :=
      Bool.of_not_eq_true (List.rdropWhile_last_not isIdle rest hrest)
    have hconcat := List.dropLast_concat_getLast hrest
    rw [steps, hparts, List.filter_append, List.filter_append, hidle, hfilter, ← hfilter rest,
      ← hconcat, List.filter_append]
    simp [hlast]

/-- A path has no steps if all parts behind its lead are idle. -/
theorem steps_eq_nil_of_splitLead {lead rest : List String} (hparts : path.parts = lead ++ rest)
    (hidle : lead.filter (!isIdle ·) = []) (hrest : withoutIdleEnd rest = []) :
    path.steps = [] := by
  rw [steps, hparts, List.filter_append, hidle, ← filter_withoutEnd (fun _ => id) rest]
  exact congrArg (List.filter _) hrest

/-- The parts from which `parent?` puts a path together: the first ones of the parts of the path, with
all steps but the last one. They begin at the root directory if the path does, and are nothing but
the root directory only then. -/
structure LeadsAbove (path : Path) (above : List String) : Prop where
  /-- They are the first ones of the parts. -/
  front : above <+: path.parts
  /-- All steps but the last one are left. -/
  steps_eq : above.filter (!isIdle ·) = path.steps.dropLast
  /-- They begin with the empty part if the path is absolute. -/
  start : path.isAbsolute = true → above.head? = some ""
  /-- Only an absolute path leaves nothing but the root directory. -/
  root : above = [""] → path.isAbsolute = true

/-- **The two kinds of parents**: a path without steps that starts with a dot is below the empty path,
and a path with steps is below the path that its parts without the last step make. -/
theorem parent?_cases (h : path.parent? = some parent) :
    path.steps = [] ∧ path.isAbsolute = false ∧ parent = ⟨""⟩ ∨
      ∃ above, path.LeadsAbove above ∧
        (above = [""] ∧ parent = ⟨"/"⟩ ∨ above ≠ [""] ∧ parent = ⟨"/".intercalate above⟩) := by
  obtain ⟨hparts, hlead⟩ := path.splitLead_cases
  unfold parent? at h
  generalize path.splitLead = start at h hparts hlead
  obtain ⟨lead, rest⟩ := start
  dsimp only at h hparts hlead
  have hidle : lead.filter (!isIdle ·) = [] := by
    obtain ⟨rfl, -⟩ | ⟨rfl | rfl, -⟩ := hlead <;> rfl
  split at h
  · next hrest =>
    split at h
    · next hdot =>
      cases h
      obtain ⟨rfl, -⟩ | ⟨-, hrelative⟩ := hlead
      · exact absurd hdot (by decide)
      · exact .inl ⟨steps_eq_nil_of_splitLead hparts hidle hrest, hrelative, rfl⟩
    · cases h
  · next hrest =>
    obtain ⟨hfront, hsteps⟩ := above_of_splitLead hparts hidle hrest
    have habove : path.LeadsAbove (lead ++ withoutIdleEnd (withoutIdleEnd rest).dropLast) := by
      refine ⟨hfront, hsteps, ?_, ?_⟩
      · obtain ⟨rfl, -⟩ | ⟨-, hrelative⟩ := hlead
        · simp
        · simp [hrelative]
      · obtain ⟨-, habsolute⟩ | ⟨rfl | rfl, -⟩ := hlead
        · exact fun _ => habsolute
        · simp
        · exact fun heq => absurd heq (withoutIdleEnd_ne_empty _)
    refine .inr ⟨_, habove, ?_⟩
    split at h
    · next hroot =>
      cases h
      exact .inl ⟨hroot, rfl⟩
    · next hne =>
      cases h
      exact .inr ⟨hne, rfl⟩

/-- The path that parts make has their steps, and starts where the path does. -/
theorem LeadsAbove.steps_intercalate {above : List String} (h : path.LeadsAbove above)
    (hne : above ≠ [""]) :
    Path.steps ⟨"/".intercalate above⟩ = path.steps.dropLast ∧
      Path.isAbsolute ⟨"/".intercalate above⟩ = path.isAbsolute := by
  obtain rfl | hnil := eq_or_ne above []
  · have hrelative := Bool.of_not_eq_true (mt h.start (by simp))
    exact ⟨h.steps_eq, by rw [hrelative]; rfl⟩
  · have hparts := parts_intercalate hnil fun part hpart =>
      slash_notMem_of_mem_parts (h.front.subset hpart)
    refine ⟨by rw [steps, hparts, h.steps_eq], isAbsolute_of_front (by rw [hparts]; exact h.front) ?_⟩
    intro habsolute
    obtain ⟨back, rfl⟩ := List.head?_eq_some_iff.mp (h.start habsolute)
    rw [hparts]
    cases back with
    | nil => exact absurd rfl hne
    | cons part back => simp

/-- **The parent of a path** has all steps of the path but the last one. -/
theorem steps_parent? (h : path.parent? = some parent) :
    parent.steps = path.steps.dropLast ∧ parent.isAbsolute = path.isAbsolute := by
  obtain ⟨hsteps, hrelative, rfl⟩ | ⟨above, habove, ⟨rfl, rfl⟩ | ⟨hne, rfl⟩⟩ := parent?_cases h
  · rw [hsteps, hrelative]
    exact ⟨rfl, rfl⟩
  · -- Only the root directory is left.
    exact ⟨habove.steps_eq, (habove.root rfl).symm⟩
  · exact habove.steps_intercalate hne

/-- A path above a path has the first ones of its steps. -/
theorem steps_of_mem_ancestors {above : Path} (h : above ∈ path.ancestors) :
    above.steps <+: path.steps ∧ above.isAbsolute = path.isAbsolute := by
  unfold ancestors at h
  generalize path.parts.length + 1 = count at h
  induction count generalizing path with
  | zero => cases h
  | succ count ih =>
    rw [ancestorsUpTo, List.mem_cons] at h
    obtain rfl | h := h
    · exact ⟨List.prefix_rfl, rfl⟩
    · split at h
      · cases h
      · next parent hparent =>
        obtain ⟨hsteps, habsolute⟩ := steps_parent? hparent
        obtain ⟨hfront, hsame⟩ := ih h
        have hparentSteps : parent.steps <+: path.steps := by
          rw [hsteps]
          exact List.dropLast_prefix path.steps
        exact ⟨hfront.trans hparentSteps, hsame.trans habsolute⟩

/-! ### Entries of a directory -/

/-- As it is spelled, the path leads to the entry of the directory with the given name. -/
structure IsEntry (path directory : Path) (name : String) : Prop where
  /-- The name is the name of an entry. -/
  isEntryName : IsEntryName name
  /-- Both paths start at the same directory. -/
  isAbsolute : path.isAbsolute = directory.isAbsolute
  /-- The name is the only step behind the directory. -/
  steps : path.steps = directory.steps ++ [name]

/-- All steps of a path are in front of the names of the files below it. -/
theorem filter_leadParts (path : Path) : path.leadParts.filter (!isIdle ·) = path.steps := by
  by_cases hempty : path.text = ""
  · rw [leadParts, lead, steps, parts, hempty]
    rfl
  · obtain hparts | hparts := parts_eq_leadParts hempty
    · rw [steps, hparts]
    · rw [steps, hparts, List.filter_append]
      simp [isIdle]

/-- A path joined with a name leads to the entry with the name. -/
theorem isEntry_join (directory : Path) {name : String} (hname : IsEntryName name)
    (hslash : '/' ∉ name.toList) : (directory.join name).IsEntry directory name := by
  have hrelative : IsRelative name := fun hhead => hslash (List.mem_of_head? hhead)
  refine ⟨hname, isAbsolute_join directory hrelative, ?_⟩
  rw [steps, parts_join directory hrelative, Text.pieces_of_notMem hslash, List.filter_append,
    filter_leadParts]
  simp [hname.1]

end Path

namespace FileSystem

variable {files middle later : FileSystem} {path above : Path} {steps : List String}
  {location : Location} {made places : Location → Prop}

/-! ### On the way -/

/-- Idle parts can be left out of a walk. -/
theorem walk_filter {current target : Location} {parts : List String}
    (h : files.walk current parts = .ok target) :
    files.walk current (parts.filter (!Path.isIdle ·)) = .ok target := by
  induction parts generalizing current with
  | nil => exact h
  | cons part rest ih =>
    rw [walk_cons_eq_ok] at h
    obtain ⟨hdirectory, h⟩ := h
    split at h
    · next hidle =>
      rw [List.filter_cons_of_neg (by simp [hidle])]
      exact ih h
    · next hidle =>
      rw [List.filter_cons_of_pos (by simp [hidle]), walk_cons_eq_ok, if_neg hidle]
      refine ⟨hdirectory, ?_⟩
      split at h
      · next hparent =>
        rw [if_pos hparent]
        exact ih h
      · next hparent =>
        rw [if_neg hparent]
        exact ⟨h.1, h.2.1, ih h.2.2⟩

/-- The first ones of the steps, at least one, lead to the location, from where the path starts. -/
def IsOnWay (files : FileSystem) (path : Path) (steps : List String) (location : Location) : Prop :=
  ∃ front, front ≠ [] ∧ front <+: steps ∧ files.walk (files.start path) front = .ok location

/-- What is on the way stays on the way. -/
theorem KeepsPaths.isOnWay (h : files.KeepsPaths later) (hway : files.IsOnWay path steps location) :
    later.IsOnWay path steps location := by
  obtain ⟨front, hne, hfront, hwalk⟩ := hway
  refine ⟨front, hne, hfront, ?_⟩
  rw [h.start]
  exact h.walk hwalk

/-- What is on the way of a path that shares the first steps is on the way. -/
theorem IsOnWay.of_steps (h : files.IsOnWay above above.steps location)
    (hsteps : above.steps <+: steps) (hstart : above.isAbsolute = path.isAbsolute) :
    files.IsOnWay path steps location := by
  obtain ⟨front, hne, hfront, hwalk⟩ := h
  refine ⟨front, hne, hfront.trans hsteps, ?_⟩
  rwa [start, ← hstart]

/-- What is on the way to an entry of a directory is on the way to the directory. -/
theorem IsOnWay.of_entry {name : String} (h : files.IsOnWay path path.steps.dropLast location)
    (hentry : path.IsEntry above name) : files.IsOnWay above above.steps location := by
  obtain ⟨front, hne, hfront, hwalk⟩ := h
  rw [hentry.steps, List.dropLast_concat] at hfront
  refine ⟨front, hne, hfront, ?_⟩
  rwa [start, ← hentry.isAbsolute]

/-! ### New directories -/

/-- Files have changed at `places` only, and directories have come into being at `made` only, where
nothing stood. -/
structure ChangesWithin (made places : Location → Prop) (files later : FileSystem) : Prop where
  /-- All paths stay, and elsewhere all files do. -/
  changes : ChangesAt places files later
  /-- A directory was there, or it may be new and nothing was there. -/
  directory : ∀ location, later.node? location = some .directory →
    files.node? location = some .directory ∨ files.node? location = none ∧ made location

namespace ChangesWithin

/-- Nothing has changed in a file system itself. -/
theorem refl (made places : Location → Prop) (files : FileSystem) :
    ChangesWithin made places files files :=
  ⟨.refl places files, fun _ => .inl⟩

/-- Two changes within bounds, one after the other, are one. -/
theorem trans (h : ChangesWithin made places files middle)
    (h' : ChangesWithin made places middle later) : ChangesWithin made places files later := by
  refine ⟨h.changes.trans h'.changes, fun location hlater => ?_⟩
  obtain hmiddle | ⟨hmiddle, hmade⟩ := h'.directory location hlater
  · exact h.directory location hmiddle
  · refine .inr ⟨?_, hmade⟩
    -- What stood there in the beginning would stand there in between.
    by_contra hfiles
    have hsome := h.changes.keepsPaths.isSome location (Option.isSome_iff_ne_none.mpr hfiles)
    simp [hmiddle] at hsome

/-- Wider bounds hold all the more. -/
theorem mono (h : ChangesWithin made places files later) {made' places' : Location → Prop}
    (hmade : ∀ location, made location → made' location)
    (hplaces : ∀ location, places location → places' location) :
    ChangesWithin made' places' files later :=
  ⟨h.changes.mono hplaces, fun location hlater =>
    (h.directory location hlater).imp_right fun ⟨hnone, hnew⟩ => ⟨hnone, hmade location hnew⟩⟩

end ChangesWithin

/-- Empty parts at the end of a path are no steps. -/
theorem filter_partsWithoutSlash (path : Path) :
    (partsWithoutSlash path).filter (!Path.isIdle ·) = path.steps :=
  Path.filter_withoutEnd (by simp [Path.isIdle]) path.parts

/-- A new directory stands where its path leads. -/
theorem createDirectory_within (h : files.createDirectory path = .ok later) :
    ChangesWithin (later.IsOnWay path path.steps) (fun _ => False) files later := by
  have hchanges := createDirectory_changes h
  refine ⟨hchanges, fun location hlater => ?_⟩
  obtain ⟨directory, before, name, hparts, hwalk, hdirectory, hidle, hparent, hsize, hfree, rfl⟩ :=
    createDirectory_eq_ok h
  obtain rfl | hne := eq_or_ne location (directory ++ [name])
  · have hsteps : path.steps = before.filter (!Path.isIdle ·) ++ [name] := by
      rw [← filter_partsWithoutSlash, hparts, List.filter_append]
      simp [hidle]
    refine .inr ⟨hfree, path.steps, by simp [hsteps], List.prefix_rfl, ?_⟩
    rw [hsteps, hchanges.keepsPaths.start, walk_append_eq_ok]
    refine ⟨directory, walk_filter (hchanges.keepsPaths.walk hwalk), ?_⟩
    rw [walk_cons_eq_ok, if_neg (by simp [hidle]), if_neg hparent, hlater]
    exact ⟨hchanges.keepsPaths.directory directory hdirectory, hsize, rfl, rfl⟩
  · rw [node?_setNode_of_ne files _ hne] at hlater
    exact .inl hlater

/-- All directories that are made for a path are on its way. -/
theorem createDirectories_within (files : FileSystem) (path : Path) :
    ChangesWithin ((files.createDirectories path).2.IsOnWay path path.steps) (fun _ => False) files
      (files.createDirectories path).2 := by
  have hsteps := makesOne_createChain files path.ancestors
  rw [← createDirectories] at hsteps
  generalize (files.createDirectories path).2 = later at hsteps ⊢
  -- By induction on the directories that are made: what is on the way stays so when more are made.
  induction hsteps with
  | refl => exact .refl _ _ files
  | tail _ hstep ih =>
    obtain ⟨above, habove, hmade⟩ := hstep
    obtain ⟨hfront, hstart⟩ := Path.steps_of_mem_ancestors habove
    have hlast := createDirectory_within hmade
    exact (ih.mono (fun _ => hlast.changes.keepsPaths.isOnWay) fun _ => id).trans
      (hlast.mono (fun _ hway => hway.of_steps hfront hstart) fun _ => id)

end FileSystem

end NativeHeaders
