import NativeHeaders.ClassName
import NativeHeaders.Proofs.FileSystem.Below

/-! # Names of classes and of their files

An internal name is read as it stands (`ofInternal_eq_ok`). The file of a class with such a name
stands below a search root, and its parts are names of entries (`isInner_filePath`). -/

namespace NativeHeaders

namespace ClassName

variable {name : ClassName} {text : String}

/-- An internal name is accepted exactly if `isInternal` holds, and then it is kept as it is. -/
theorem ofInternal_eq_ok :
    ofInternal text = .ok name ↔ name = { internal := text } ∧ isInternal text = true := by
  unfold ofInternal
  split
  · next hempty =>
    obtain rfl : text = "" := by simpa using hempty
    simp [show isInternal "" = false by decide]
  · split
    · next hinternal => simp [hinternal, eq_comm]
    · next hinternal => simp [hinternal]

/-- The parts of the file of a class are names of entries. -/
theorem isInner_filePath (h : isInternal name.internal = true) : Path.IsInner name.filePath := by
  intro part hpart
  simp only [isInternal, internalChars, Bool.and_eq_true, List.all_eq_true] at h
  obtain ⟨front, last, hinternal, hfile⟩ := Text.segments_append_of_notMem
    (show '/' ∉ ".class".toList by decide) name.internal.toList
  rw [Text.pieces, filePath, String.toList_append, hfile] at hpart
  obtain ⟨piece, hpiece, rfl⟩ := List.mem_map.mp hpart
  -- A part has a character that is no dot: one of a simple name, or one of the extension.
  obtain hfront | hlast := List.mem_append.mp hpiece
  · have hsimple := h.2 piece (by simp [hinternal, hfront])
    simp only [simpleChars, Bool.and_eq_true, Bool.not_eq_true', List.isEmpty_eq_false_iff,
      List.all_eq_true] at hsimple
    obtain ⟨c, hc⟩ := List.exists_mem_of_ne_nil piece hsimple.1
    refine Path.isEntryName_of_mem (by simpa using hc) ?_
    rintro rfl
    exact absurd (hsimple.2 '.' hc) (by decide)
  · obtain rfl := List.mem_singleton.mp hlast
    exact Path.isEntryName_of_mem (show 'c' ∈ _ by simp) (by decide)

end ClassName

end NativeHeaders
