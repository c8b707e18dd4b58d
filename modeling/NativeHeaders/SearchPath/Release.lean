/-! # Releases

An archive or directory may hold several versions of a class file, each for a release from which on it counts.
The supported releases are few, and a name stands for one of them if it is its decimal number. -/

namespace NativeHeaders.Release

/-- The least release for which there may be a version of its own. -/
def least : Nat := 9

/-- The greatest supported release. -/
def greatest : Nat := 25

/-- The supported releases, the latest first. -/
def supported : List Nat := (List.range' least (greatest + 1 - least)).reverse

/-- The release that a name stands for. -/
def ofName? (name : String) : Option Nat := supported.find? fun release => toString release = name

/-- The releases that some of the names stand for, the latest first, each once. -/
def ofNames (names : List String) : List Nat :=
  let found := names.filterMap ofName?
  supported.filter (found.contains ·)

/-- The releases of directory names are the supported ones that a name spells. -/
theorem mem_ofNames {names : List String} {release : Nat} :
    release ∈ ofNames names ↔ release ∈ supported ∧ ∃ name ∈ names, ofName? name = some release := by
  simp [ofNames, List.mem_filterMap]

/-- Only which names there are matters, and not their order. -/
theorem ofNames_congr {names others : List String} (h : ∀ name, name ∈ names ↔ name ∈ others) :
    ofNames names = ofNames others := by
  have : ∀ release, (names.filterMap ofName?).contains release =
      (others.filterMap ofName?).contains release := by
    intro release
    rw [Bool.eq_iff_iff]
    simp [List.mem_filterMap, h]
  simp only [ofNames, this]

end NativeHeaders.Release
