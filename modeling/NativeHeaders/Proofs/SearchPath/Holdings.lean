import NativeHeaders.Proofs.FileSystem.Below
import NativeHeaders.SearchPath

/-! # What a tree of class files holds

Directories and archives are two ways to keep one thing, a map from names to files together with a
manifest (`Holdings`). Which file is found under a name depends on nothing else (`Holdings.Gives`):
the version for the latest supported release that has one, if versions count, and otherwise the file
itself. A tree reaches the same file by another way, since it lists the releases to look for when it
is opened: `readable?_versionedName_eq_some_iff` says that looking only under the listed releases
leaves out no version. -/

namespace NativeHeaders

/-! ### Searches that give the first of several contents -/

/-- The content that the first of the places holds that holds any. -/
def FirstOf {α : Type} (holds : α → ByteArray → Prop) (places : List α) (content : ByteArray) :
    Prop :=
  ∃ before place after, places = before ++ place :: after ∧
    (∀ earlier ∈ before, ∀ other, ¬holds earlier other) ∧ holds place content

section FirstOf

variable {α β : Type} {holds : α → ByteArray → Prop} {content : ByteArray}

/-- No place holds nothing first. -/
theorem not_firstOf_nil : ¬FirstOf holds [] content := by
  rintro ⟨before, place, after, hplaces, -⟩
  simp at hplaces

/-- What is held first is held by the first place, or first by the others if that one holds nothing.
-/
theorem firstOf_cons {place : α} {places : List α} :
    FirstOf holds (place :: places) content ↔
      holds place content ∨ (∀ other, ¬holds place other) ∧ FirstOf holds places content := by
  constructor
  · rintro ⟨before, found, after, hplaces, hbefore, hfound⟩
    cases before with
    | nil =>
      obtain ⟨rfl, -⟩ := List.cons_eq_cons.mp hplaces
      exact .inl hfound
    | cons first before =>
      obtain ⟨rfl, rfl⟩ := List.cons_eq_cons.mp hplaces
      rw [List.forall_mem_cons] at hbefore
      exact .inr ⟨hbefore.1, before, found, after, rfl, hbefore.2, hfound⟩
  · rintro (hfound | ⟨hfirst, before, found, after, rfl, hbefore, hfound⟩)
    · exact ⟨[], place, places, rfl, by simp, hfound⟩
    · exact ⟨place :: before, found, after, rfl, List.forall_mem_cons.mpr ⟨hfirst, hbefore⟩, hfound⟩

/-- What is held first is held first in the front part, or in the back part if the front part holds
nothing. -/
theorem firstOf_append {front back : List α} :
    FirstOf holds (front ++ back) content ↔
      FirstOf holds front content ∨
        (∀ place ∈ front, ∀ other, ¬holds place other) ∧ FirstOf holds back content := by
  induction front with
  | nil => simp [not_firstOf_nil]
  | cons place front ih =>
    rw [List.cons_append, firstOf_cons, ih, firstOf_cons, List.forall_mem_cons, and_or_left,
      ← or_assoc, and_assoc]

/-- One place holds first what it holds. -/
theorem firstOf_singleton {place : α} : FirstOf holds [place] content ↔ holds place content := by
  simp [firstOf_cons, not_firstOf_nil]

/-- Places that stand for others hold what these do. -/
theorem firstOf_map {change : β → α} {places : List β} :
    FirstOf holds (places.map change) content ↔
      FirstOf (fun place => holds (change place)) places content := by
  induction places with
  | nil => simp [not_firstOf_nil]
  | cons place places ih => rw [List.map_cons, firstOf_cons, ih, firstOf_cons]

/-- Some place holds something exactly if there is a first one. -/
theorem exists_firstOf {places : List α} :
    (∃ content, FirstOf holds places content) ↔ ∃ place ∈ places, ∃ content, holds place content := by
  induction places with
  | nil => simp [not_firstOf_nil]
  | cons place places ih =>
    simp only [firstOf_cons, List.mem_cons, or_and_right, exists_or, exists_eq_left,
      exists_and_left, ih]
    by_cases hplace : ∃ content, holds place content
    · simp [hplace]
    · simp [not_exists.mp hplace]

end FirstOf

/-- The search does not fail, and it gives the content that is described, if there is one. -/
def Finds (search : Except ResolveError (Option ClassSource)) (described : ByteArray → Prop) :
    Prop :=
  ∃ found, search = .ok found ∧
    ∀ content, found.map ClassSource.bytes = some content ↔ described content

/-- A search finds nothing exactly if nothing is described. -/
theorem Finds.eq_none_iff {described : ByteArray → Prop} {found : Option ClassSource}
    (h : Finds (.ok found) described) : found = none ↔ ∀ content, ¬described content := by
  obtain ⟨_, ⟨⟩, hfound⟩ := h
  cases found with
  | none => simpa using hfound
  | some source =>
    simp only [reduceCtorEq, false_iff]
    intro hnone
    exact hnone source.bytes ((hfound source.bytes).mp rfl)

/-- Places that are searched in order give what the first of them holds. -/
theorem Finds.first {α : Type} {search : α → Except ResolveError (Option ClassSource)}
    {holds : α → ByteArray → Prop} {places : List α}
    (h : ∀ place ∈ places, Finds (search place) (holds place)) :
    Finds (places.findSomeM? search) (FirstOf holds places) := by
  induction places with
  | nil => exact ⟨none, rfl, fun content => by simp [not_firstOf_nil]⟩
  | cons place places ih =>
    rw [List.forall_mem_cons] at h
    obtain ⟨found, hsearch, hfound⟩ := h.1
    obtain ⟨rest, hrest, hlater⟩ := ih h.2
    rw [List.findSomeM?_cons, hsearch]
    cases found with
    | some source =>
      refine ⟨some source, rfl, fun content => ?_⟩
      have hholds : holds place source.bytes := (hfound source.bytes).mp rfl
      rw [firstOf_cons, hfound]
      constructor
      · exact .inl
      · rintro (hcontent | ⟨hnone, -⟩)
        · exact hcontent
        · exact absurd hholds (hnone source.bytes)
    | none =>
      refine ⟨rest, hrest, fun content => ?_⟩
      have hnone : ∀ other, ¬holds place other := by simpa using hfound
      rw [firstOf_cons, hlater]
      simp [hnone]

/-- A search finds what is described in another way. -/
theorem Finds.congr {search : Except ResolveError (Option ClassSource)}
    {described other : ByteArray → Prop} (h : Finds search described)
    (hsame : ∀ content, described content ↔ other content) : Finds search other := by
  obtain ⟨found, hsearch, hfound⟩ := h
  exact ⟨found, hsearch, fun content => (hfound content).trans (hsame content)⟩

/-! ### Holdings -/

/-- What a directory or an archive holds. -/
structure Holdings where
  /-- The content of the file with a name. -/
  file? : String → Option ByteArray
  /-- Whether the manifest says that there are versions for later releases. -/
  hasVersions : Bool

namespace Holdings

variable {holdings : Holdings} {name : String} {release : Nat} {releases : List Nat}
  {content : ByteArray}

/-- The content is the version of a file for the latest supported release that has one. -/
structure IsLatestVersion (holdings : Holdings) (name : String) (release : Nat)
    (content : ByteArray) : Prop where
  /-- The release is supported. -/
  supported : 9 ≤ release ∧ release ≤ 25
  /-- There is a version for the release. -/
  held : holdings.file? (ClassTree.versionName release name) = some content
  /-- There is none for a later release. -/
  latest : ∀ later, release < later → later ≤ 25 →
    holdings.file? (ClassTree.versionName later name) = none

/-- There is no version of a file for a supported release. -/
def HasNoVersion (holdings : Holdings) (name : String) : Prop :=
  ∀ release, 9 ≤ release → release ≤ 25 →
    holdings.file? (ClassTree.versionName release name) = none

/-- The content that is found under a name. -/
inductive Gives (holdings : Holdings) (name : String) : ByteArray → Prop where
  /-- The latest version, where versions count. -/
  | version {release : Nat} {content : ByteArray} (hversions : holdings.hasVersions = true)
      (hlatest : holdings.IsLatestVersion name release content) : Gives holdings name content
  /-- The file itself, where versions do not count or there is none. -/
  | plain {content : ByteArray}
      (hversions : holdings.hasVersions = true → holdings.HasNoVersion name)
      (hheld : holdings.file? name = some content) : Gives holdings name content

/-- The releases are those that have versions, as far as it matters. -/
structure Lists (holdings : Holdings) (releases : List Nat) : Prop where
  /-- The latest release comes first. -/
  sorted : releases.Pairwise (· > ·)
  /-- All are supported. -/
  supported : ∀ release ∈ releases, 9 ≤ release ∧ release ≤ 25
  /-- Without versions there are none. -/
  hasVersions : ∀ release ∈ releases, holdings.hasVersions = true
  /-- A supported release that has a version of some file is there. -/
  complete : holdings.hasVersions = true → ∀ release name content, 9 ≤ release → release ≤ 25 →
    holdings.file? (ClassTree.versionName release name) = some content → release ∈ releases

/-- The first release of the list that has a version is the latest one. -/
theorem Lists.firstOf_iff (h : holdings.Lists releases) :
    FirstOf (fun release content =>
        holdings.file? (ClassTree.versionName release name) = some content) releases content ↔
      holdings.hasVersions = true ∧ ∃ release, holdings.IsLatestVersion name release content := by
  constructor
  · rintro ⟨before, release, after, rfl, hbefore, hheld⟩
    have hmem : release ∈ before ++ release :: after := by simp
    refine ⟨h.hasVersions release hmem, release, h.supported release hmem, hheld, ?_⟩
    intro later hlater hsupported
    cases hfile : holdings.file? (ClassTree.versionName later name) with
    | none => rfl
    | some other =>
      -- A later release is in the list, and then in front of the release.
      have hle : 9 ≤ later := Nat.le_trans (h.supported release hmem).1 (Nat.le_of_lt hlater)
      have hlisted := h.complete (h.hasVersions release hmem) later name other hle hsupported hfile
      rw [List.mem_append, List.mem_cons] at hlisted
      obtain hfront | rfl | hback := hlisted
      · exact absurd hfile (hbefore later hfront other)
      · exact absurd hlater (Nat.lt_irrefl _)
      · have hsorted := (List.pairwise_append.mp h.sorted).2.1
        exact absurd hlater (Nat.lt_asymm (List.rel_of_pairwise_cons hsorted hback))
  · rintro ⟨hversions, release, hlatest⟩
    have hmem := h.complete hversions release name content hlatest.supported.1
      hlatest.supported.2 hlatest.held
    obtain ⟨before, after, rfl⟩ := List.append_of_mem hmem
    refine ⟨before, release, after, rfl, fun earlier hearlier other => ?_, hlatest.held⟩
    have hlater : release < earlier :=
      (List.pairwise_append.mp h.sorted).2.2 earlier hearlier release (by simp)
    have hnone := hlatest.latest earlier hlater (h.supported earlier (by simp [hearlier])).2
    simp [hnone]

/-- What is found by trying the versions for the listed releases and then the file itself. -/
theorem Lists.gives_iff (h : holdings.Lists releases) :
    FirstOf (fun candidate content => holdings.file? candidate = some content)
        (releases.map (ClassTree.versionName · name) ++ [name]) content ↔
      holdings.Gives name content := by
  rw [firstOf_append, firstOf_map, firstOf_singleton, h.firstOf_iff, List.forall_mem_map]
  constructor
  · rintro (⟨hversions, release, hlatest⟩ | ⟨hnone, hheld⟩)
    · exact .version hversions hlatest
    · refine .plain (fun hversions release hleast hgreatest => ?_) hheld
      cases hfile : holdings.file? (ClassTree.versionName release name) with
      | none => rfl
      | some other =>
        have hlisted := h.complete hversions release name other hleast hgreatest hfile
        exact absurd hfile (hnone release hlisted other)
  · rintro (⟨hversions, hlatest⟩ | ⟨hversions, hheld⟩)
    · exact .inl ⟨hversions, _, hlatest⟩
    · refine .inr ⟨fun release hlisted other => ?_, hheld⟩
      obtain ⟨hleast, hgreatest⟩ := h.supported release hlisted
      rw [hversions (h.hasVersions release hlisted) release hleast hgreatest]
      simp

end Holdings

/-! ### Releases -/

namespace Release

/-- The supported releases are those from 9 up to 25. -/
theorem mem_supported {release : Nat} : release ∈ supported ↔ 9 ≤ release ∧ release ≤ 25 := by
  rw [supported, List.mem_reverse, List.mem_range'_1, least, greatest]
  omega

/-- A supported release is found under its number. -/
theorem ofName?_toString {release : Nat} (h : release ∈ supported) :
    ofName? (toString release) = some release := by
  have hall : ∀ release ∈ supported, ofName? (toString release) = some release := by
    decide +kernel
  exact hall release h

/-- The latest release comes first. -/
theorem pairwise_ofNames (names : List String) : (ofNames names).Pairwise (· > ·) := by
  have hsupported : supported.Pairwise (· > ·) := by decide
  exact hsupported.sublist List.filter_sublist

/-- The releases for names, if versions count, are those that have versions, if each release with a
version is among the names. -/
theorem lists_ofNames {holdings : Holdings} {names : List String}
    (hnames : holdings.hasVersions = true → ∀ release name content, 9 ≤ release → release ≤ 25 →
      holdings.file? (ClassTree.versionName release name) = some content →
        toString release ∈ names) :
    holdings.Lists (ofNames (if holdings.hasVersions then names else [])) where
  sorted := pairwise_ofNames _
  supported := fun release hrelease => mem_supported.mp (mem_ofNames.mp hrelease).1
  hasVersions := by
    intro release hrelease
    obtain ⟨-, name, hname, -⟩ := mem_ofNames.mp hrelease
    cases hversions : holdings.hasVersions with
    | true => rfl
    | false => simp [hversions] at hname
  complete := by
    intro hversions release name content hleast hgreatest hfile
    have hsupported := mem_supported.mpr ⟨hleast, hgreatest⟩
    rw [mem_ofNames, if_pos hversions]
    exact ⟨hsupported, toString release,
      hnames hversions release name content hleast hgreatest hfile, ofName?_toString hsupported⟩

end Release

end NativeHeaders
