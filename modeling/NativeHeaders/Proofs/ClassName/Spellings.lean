import NativeHeaders.Proofs.ClassName

/-! # Spellings of class names

A class is named by segments: with dots between them, with slashes between them, or with dots behind
a module and a slash (`ClassName.Spells`). These are exactly the texts that are read as names
(`parse_eq_ok`), so a name that was read is found again in what is printed of it, and its file
stands below the place where a search starts. -/

namespace NativeHeaders

namespace ClassName

/-- A piece of a name: it has characters, and none that separates or that no name holds. -/
def IsSegment (text : String) : Prop :=
  text ≠ "" ∧ ∀ c ∈ text.toList, c ∉ ['.', '/', ';', '[', '\\']

/-- The spellings of names. -/
inductive Spells : String → ClassName → Prop where
  /-- Segments with dots between them. -/
  | dotted {segments : List String} (hne : segments ≠ [])
      (hsegments : ∀ segment ∈ segments, IsSegment segment) :
      Spells (".".intercalate segments) { internal := "/".intercalate segments }
  /-- Segments with slashes between them. -/
  | slashed {segments : List String} (hne : segments ≠ [])
      (hsegments : ∀ segment ∈ segments, IsSegment segment) :
      Spells ("/".intercalate segments) { internal := "/".intercalate segments }
  /-- The segments of a module, a slash, and the segments of the class, with a dot somewhere. -/
  | qualified {moduleSegments segments : List String} (hmodule : moduleSegments ≠ [])
      (hmoduleSegments : ∀ segment ∈ moduleSegments, IsSegment segment) (hne : segments ≠ [])
      (hsegments : ∀ segment ∈ segments, IsSegment segment)
      (hdot : '.' ∈ (".".intercalate moduleSegments ++ "/" ++ ".".intercalate segments).toList) :
      Spells (".".intercalate moduleSegments ++ "/" ++ ".".intercalate segments)
        { internal := "/".intercalate segments,
          moduleHint := some (".".intercalate moduleSegments) }

variable {text input : String} {name : ClassName} {segments : List String} {separator : Char}

/-! ### Segments -/

/-- For characters, being a segment is what `simpleChars` and `isForbidden` check. -/
theorem isSegment_ofList {chars : List Char} :
    IsSegment (String.ofList chars) ↔
      simpleChars chars = true ∧ ∀ c ∈ chars, isForbidden c = false := by
  simp only [IsSegment, simpleChars, isForbidden, endsSimple, Bool.and_eq_true,
    List.isEmpty_eq_false_iff, List.all_eq_true, String.toList_ofList,
    List.mem_cons, List.not_mem_nil, or_false, not_or, Bool.or_eq_false_iff,
    decide_eq_false_iff_not, Bool.not_eq_eq_eq_not, Bool.not_true, ne_eq,
    String.ofList_eq_empty_iff]
  grind

/-- The characters of a text without any that no name holds are checked in its pieces. -/
theorem checked_iff (hseparator : isForbidden separator = false) :
    (text.toList.all (!isForbidden ·) && (Text.segments separator text.toList).all simpleChars) =
        true ↔
      ∀ segment ∈ Text.pieces separator text, IsSegment segment := by
  simp only [Text.pieces, List.forall_mem_map, isSegment_ofList, Bool.and_eq_true, List.all_eq_true,
    Bool.not_eq_true']
  constructor
  · rintro ⟨hallowed, hsimple⟩ piece hpiece
    exact ⟨hsimple piece hpiece, fun c hc => hallowed c (Text.mem_of_mem_segments hpiece hc)⟩
  · intro h
    refine ⟨fun c hc => ?_, fun piece hpiece => (h piece hpiece).1⟩
    obtain rfl | ⟨piece, hpiece, hmem⟩ := Text.mem_segments separator hc
    · exact hseparator
    · exact (h piece hpiece).2 c hmem

/-- A name with dots is a full one exactly if each of its pieces is a segment. -/
theorem isFull_iff : isFull text = true ↔ ∀ segment ∈ Text.pieces '.' text, IsSegment segment :=
  checked_iff (by decide)

/-- A name with slashes is an internal one exactly if each of its pieces is a segment. -/
theorem isInternal_iff :
    isInternal text = true ↔ ∀ segment ∈ Text.pieces '/' text, IsSegment segment :=
  checked_iff (by decide)

/-- No separator and no character with a meaning of its own in a descriptor stands in a segment. -/
theorem IsSegment.notMem {segment : String} (h : IsSegment segment) {c : Char}
    (hc : c ∈ ['.', '/', ';', '[', '\\']) : c ∉ segment.toList :=
  fun hmem => h.2 c hmem hc

/-! ### Texts made of segments -/

/-- A text is made of segments, and these are its pieces. -/
structure MadeOf (separator : Char) (segments : List String) (text : String) : Prop where
  /-- The text has the segments with the separator between them. -/
  eq : text = (String.singleton separator).intercalate segments
  /-- They are found again. -/
  pieces : Text.pieces separator text = segments
  /-- There is one at least. -/
  ne_nil : segments ≠ []
  /-- All are segments. -/
  isSegment : ∀ segment ∈ segments, IsSegment segment

/-- Segments with separators between them are made of these segments. -/
theorem madeOf_intercalate (hseparator : separator ∈ ['.', '/']) (hne : segments ≠ [])
    (hsegments : ∀ segment ∈ segments, IsSegment segment) :
    MadeOf separator segments ((String.singleton separator).intercalate segments) where
  eq := rfl
  pieces := Text.pieces_intercalate hne fun segment hsegment =>
    (hsegments segment hsegment).notMem (by revert hseparator; simp; grind)
  ne_nil := hne
  isSegment := hsegments

/-- A text whose pieces are segments is made of them. -/
theorem madeOf_pieces (h : ∀ segment ∈ Text.pieces separator text, IsSegment segment) :
    MadeOf separator (Text.pieces separator text) text where
  eq := (Text.intercalate_pieces separator text).symm
  pieces := rfl
  ne_nil := Text.pieces_ne_nil separator text
  isSegment := h

namespace MadeOf

/-- Segments with dots between them are a full name. -/
theorem isFull (h : MadeOf '.' segments text) : isFull text = true :=
  isFull_iff.mpr (h.pieces ▸ h.isSegment)

/-- Segments with slashes between them are an internal name. -/
theorem isInternal (h : MadeOf '/' segments text) : isInternal text = true :=
  isInternal_iff.mpr (h.pieces ▸ h.isSegment)

/-- The text holds no character that segments do not hold, apart from the separator. -/
theorem notMem (h : MadeOf separator segments text) {c : Char} (hne : c ≠ separator)
    (hc : c ∈ ['.', '/', ';', '[', '\\']) : c ∉ text.toList := by
  intro hmem
  obtain hsame | ⟨segment, hsegment, hmem⟩ := Text.mem_pieces separator hmem
  · exact hne hsame
  · exact (h.isSegment segment (h.pieces ▸ hsegment)).notMem hc hmem

/-- A name that is made of segments is not empty. -/
theorem ne_empty (h : MadeOf separator segments text) : text ≠ "" := by
  rintro rfl
  have hpieces := h.pieces
  rw [show Text.pieces separator "" = [""] from rfl] at hpieces
  exact (h.isSegment "" (by simp [← hpieces])).1 rfl

/-- A name has no forbidden character, if the separator is none. -/
theorem any_isForbidden (h : MadeOf separator segments text)
    (hseparator : isForbidden separator = false) :
    text.toList.any isForbidden = false := by
  have hchecked := (checked_iff hseparator).mpr (h.pieces ▸ h.isSegment)
  simp only [Bool.and_eq_true] at hchecked
  rw [List.any_eq_false]
  intro c hc
  simpa using List.all_eq_true.mp hchecked.1 c hc

/-- With the other separator written between them, the same segments make a text. -/
theorem substituted (h : MadeOf separator segments text) (other : Char) (hne : other ≠ separator)
    (hother : other ∈ ['.', '/']) :
    Text.substituted separator other text = (String.singleton other).intercalate segments := by
  rw [Text.substituted_eq_intercalate, h.pieces]
  exact h.notMem hne (by revert hother; simp; grind)

end MadeOf

/-- Segments with dots between them are made of these segments. -/
theorem madeOf_dotted (hne : segments ≠ []) (hsegments : ∀ segment ∈ segments, IsSegment segment) :
    MadeOf '.' segments (".".intercalate segments) :=
  madeOf_intercalate (by simp) hne hsegments

/-- Segments with slashes between them are made of these segments. -/
theorem madeOf_slashed (hne : segments ≠ []) (hsegments : ∀ segment ∈ segments, IsSegment segment) :
    MadeOf '/' segments ("/".intercalate segments) :=
  madeOf_intercalate (by simp) hne hsegments

/-! ### Reading -/

/-- A full name is read with its dots written as slashes. -/
theorem ofFull_eq_ok {moduleHint : Option String} :
    ofFull moduleHint input text = .ok name ↔
      ∃ segments, MadeOf '.' segments text ∧
        name = { internal := "/".intercalate segments, moduleHint } := by
  unfold ofFull
  split
  · next hfull =>
    have hmade := madeOf_pieces (isFull_iff.mp hfull)
    rw [Except.ok.injEq, hmade.substituted '/' (by decide) (by simp)]
    constructor
    · rintro rfl
      exact ⟨_, hmade, rfl⟩
    · rintro ⟨segments, hsegments, rfl⟩
      rw [hsegments.pieces]
      rfl
  · next hfull =>
    simp only [reduceCtorEq, false_iff, not_exists, not_and]
    intro segments hsegments
    exact absurd hsegments.isFull hfull

/-- The names that `ofInternal` accepts are those that are made of segments with slashes. -/
theorem ofInternal_eq_ok_iff_madeOf :
    ofInternal text = .ok name ↔
      ∃ segments, MadeOf '/' segments text ∧ name = { internal := "/".intercalate segments } := by
  rw [ofInternal_eq_ok]
  constructor
  · rintro ⟨rfl, hinternal⟩
    have hmade := madeOf_pieces (isInternal_iff.mp hinternal)
    exact ⟨_, hmade, congrArg (ClassName.mk · none) hmade.eq⟩
  · rintro ⟨segments, hsegments, rfl⟩
    exact ⟨congrArg (ClassName.mk · none) hsegments.eq.symm, hsegments.isInternal⟩

/-- A text that is read spells the name. -/
theorem spells_of_parse (h : parse text = .ok name) : Spells text name := by
  unfold parse at h
  split at h
  · cases h
  · split at h
    · cases h
    · split at h
      · obtain ⟨segments, hmade, rfl⟩ := ofFull_eq_ok.mp h
        rw [hmade.eq]
        exact .dotted hmade.ne_nil hmade.isSegment
      · next moduleName rest hcut =>
        obtain ⟨rfl, -⟩ := Text.cutText_eq_some_iff.mp hcut
        split at h
        · obtain ⟨segments, hmade, rfl⟩ := ofInternal_eq_ok_iff_madeOf.mp h
          rw [hmade.eq]
          exact .slashed hmade.ne_nil hmade.isSegment
        · next hdot =>
          rw [Bool.not_eq_true, Bool.not_eq_false', List.contains_iff_mem] at hdot
          split at h
          · next hfull =>
            obtain ⟨segments, hmade, rfl⟩ := ofFull_eq_ok.mp h
            have hmodule := madeOf_pieces (isFull_iff.mp hfull)
            rw [hmodule.eq, hmade.eq] at hdot ⊢
            exact .qualified hmodule.ne_nil hmodule.isSegment hmade.ne_nil hmade.isSegment hdot
          · cases h

/-- Dotted segments are read as a name. -/
theorem parse_dotted (h : MadeOf '.' segments text) :
    parse text = .ok { internal := "/".intercalate segments } := by
  have hcut : Text.cutText '/' text = none :=
    Text.cutText_eq_none_iff.mpr (h.notMem (by decide) (by simp))
  rw [parse, if_neg (by simpa using h.ne_empty),
    if_neg (Bool.eq_false_iff.mp (h.any_isForbidden (by decide))), hcut]
  exact ofFull_eq_ok.mpr ⟨segments, h, rfl⟩

/-- Segments with slashes between them are read as a name. -/
theorem parse_slashed (h : MadeOf '/' segments text) :
    parse text = .ok { internal := "/".intercalate segments } := by
  have hdot : '.' ∉ text.toList := h.notMem (by decide) (by simp)
  cases hcut : Text.cutText '/' text with
  | none =>
    -- A single segment is a dotted name as well.
    have hslash := Text.cutText_eq_none_iff.mp hcut
    have hsingle : segments = [text] := by rw [← h.pieces, Text.pieces_of_notMem hslash]
    subst hsingle
    exact parse_dotted
      ⟨by simp, Text.pieces_of_notMem hdot, h.ne_nil, h.isSegment⟩
  | some parts =>
    rw [parse, if_neg (by simpa using h.ne_empty),
      if_neg (Bool.eq_false_iff.mp (h.any_isForbidden (by decide))), hcut]
    dsimp only
    rw [if_pos (by simpa using hdot)]
    exact ofInternal_eq_ok_iff_madeOf.mpr ⟨segments, h, rfl⟩

/-- A module, a slash and dotted segments are read as a name in the module. -/
theorem parse_qualified {moduleSegments : List String} {moduleName rest : String}
    (hmodule : MadeOf '.' moduleSegments moduleName) (h : MadeOf '.' segments rest)
    (hdot : '.' ∈ (moduleName ++ "/" ++ rest).toList) :
    parse (moduleName ++ "/" ++ rest) =
      .ok { internal := "/".intercalate segments, moduleHint := some moduleName } := by
  have hcut : Text.cutText '/' (moduleName ++ "/" ++ rest) = some (moduleName, rest) :=
    Text.cutText_eq_some_iff.mpr ⟨rfl, hmodule.notMem (by decide) (by simp)⟩
  have hallowed : (moduleName ++ "/" ++ rest).toList.any isForbidden = false := by
    simp [h.any_isForbidden (by decide), hmodule.any_isForbidden (by decide), isForbidden]
  have hcontains : (!(moduleName ++ "/" ++ rest).toList.contains '.') ≠ true := by
    simpa only [ne_eq, Bool.not_eq_true, Bool.not_eq_false', List.contains_iff_mem] using hdot
  rw [parse, if_neg (by simp), if_neg (Bool.eq_false_iff.mp hallowed), hcut]
  dsimp only
  rw [if_neg hcontains, if_pos hmodule.isFull]
  exact ofFull_eq_ok.mpr ⟨segments, h, rfl⟩

/-- A text is read as a name exactly if it spells it. -/
theorem parse_eq_ok : parse text = .ok name ↔ Spells text name := by
  constructor
  · exact spells_of_parse
  · rintro (⟨hne, hsegments⟩ | ⟨hne, hsegments⟩ | ⟨hmodule, hmoduleSegments, hne, hsegments, hdot⟩)
    · exact parse_dotted (madeOf_dotted hne hsegments)
    · exact parse_slashed (madeOf_slashed hne hsegments)
    · exact parse_qualified (madeOf_dotted hmodule hmoduleSegments) (madeOf_dotted hne hsegments)
        hdot

/-! ### Names that were read -/

/-- A name that is read, as a spelling or as an internal name, is made of segments. -/
theorem exists_madeOf (h : ∃ text, parse text = .ok name ∨ ofInternal text = .ok name) :
    ∃ segments, MadeOf '/' segments name.internal := by
  obtain ⟨text, hparse | hinternal⟩ := h
  · obtain ⟨hne, hsegments⟩ | ⟨hne, hsegments⟩ | ⟨-, -, hne, hsegments, -⟩ := spells_of_parse hparse
    all_goals exact ⟨_, madeOf_slashed hne hsegments⟩
  · obtain ⟨segments, hmade, rfl⟩ := ofInternal_eq_ok_iff_madeOf.mp hinternal
    exact ⟨segments, hmade.eq ▸ hmade⟩

/-- Names that are read are internal names. -/
theorem isInternal_of_read (h : ∃ text, parse text = .ok name ∨ ofInternal text = .ok name) :
    isInternal name.internal = true := by
  obtain ⟨_, hmade⟩ := exists_madeOf h
  exact hmade.isInternal

/-- The binary name has the segments of the internal name with dots between them. -/
theorem MadeOf.binary (h : MadeOf '/' segments name.internal) :
    MadeOf '.' segments name.binary := by
  rw [ClassName.binary, h.substituted '.' (by decide) (by simp)]
  exact madeOf_dotted h.ne_nil h.isSegment

/-- An internal name is read back as it is, without a module. -/
theorem parse_internal (h : MadeOf '/' segments name.internal) :
    parse name.internal = .ok { internal := name.internal } := by
  rw [parse_slashed h, show name.internal = "/".intercalate segments from h.eq]

/-- A binary name is read back as the internal one, without a module. -/
theorem parse_binary (h : MadeOf '/' segments name.internal) :
    parse name.binary = .ok { internal := name.internal } := by
  rw [parse_dotted h.binary, show name.internal = "/".intercalate segments from h.eq]

/-- A name that is read without a module is read again from its binary name; one with a module is
printed as it was spelled. -/
theorem parse_display (h : ∃ text, parse text = .ok name ∨ ofInternal text = .ok name) :
    parse name.display = .ok name := by
  obtain ⟨segments, hmade⟩ := exists_madeOf h
  have hplain (hhint : name.moduleHint = none) : parse name.display = .ok name := by
    obtain ⟨internal, moduleHint⟩ := name
    subst hhint
    exact parse_binary hmade
  obtain ⟨text, hparse | hinternal⟩ := h
  · cases spells_of_parse hparse with
    | dotted => exact hplain rfl
    | slashed => exact hplain rfl
    | qualified hmodule hmoduleSegments hne hsegments hdot =>
      have hbinary := (madeOf_slashed hne hsegments).substituted '.' (by decide) (by simp)
      rw [display, ClassName.binary, hbinary]
      exact hparse
  · obtain ⟨rfl, -⟩ := ofInternal_eq_ok.mp hinternal
    exact hplain rfl

/-- The spellings are the texts that are read as names, what is printed of a name is read as the
name, and its file stands below the place where a search starts. -/
theorem parse_eq_ok_iff_spells :
    (∀ text name, parse text = .ok name ↔ Spells text name) ∧
      ∀ name, (∃ text, parse text = .ok name ∨ ofInternal text = .ok name) →
        parse name.display = .ok name ∧
        parse name.internal = .ok { internal := name.internal } ∧
        parse name.binary = .ok { internal := name.internal } ∧
        Path.IsRelative name.filePath ∧
        ∀ part ∈ Text.pieces '/' name.filePath, part ≠ "" ∧ part ≠ "." ∧ part ≠ ".." := by
  refine ⟨fun _ _ => parse_eq_ok, fun name h => ?_⟩
  obtain ⟨segments, hmade⟩ := exists_madeOf h
  have hinner := isInner_filePath hmade.isInternal
  refine ⟨parse_display h, parse_internal hmade, parse_binary hmade, hinner.isRelative, ?_⟩
  intro part hpart
  obtain ⟨hidle, hup⟩ := hinner part hpart
  simp only [Path.isIdle, Bool.or_eq_false_iff, decide_eq_false_iff_not] at hidle
  exact ⟨hidle.1, hidle.2, hup⟩

/-- A name with its module is read, printed and found below a root. -/
theorem parse_object_in_module :
    parse "java.base/java.lang.Object" =
        .ok { internal := "java/lang/Object", moduleHint := some "java.base" } ∧
      parse "java.lang.Object" = .ok { internal := "java/lang/Object" } ∧
      Path.IsRelative "java/lang/Object.class" := by
  have hread : parse "java.base/java.lang.Object" =
      .ok { internal := "java/lang/Object", moduleHint := some "java.base" } := by decide +kernel
  obtain ⟨-, -, hbinary, hrelative, -⟩ := parse_eq_ok_iff_spells.2 _ ⟨_, .inl hread⟩
  exact ⟨hread, hbinary, hrelative⟩

end ClassName

end NativeHeaders
