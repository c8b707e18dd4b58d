import NativeHeaders.Proofs.Symbol.Decoding

/-! # Texts that are written alike

A slash is written as a bare underscore. In front of the digits of an escape it is therefore written
like the code unit that the escape stands for: `a/1` and `a_` are both written `a_1`. The `reading`
of a text takes such a slash and its digits for that unit. What is written can be told from it
(`flatMap_escapeUnit_reading`), and it can be told from what is written (`readBehind_escapeChars`),
so that two texts are written alike exactly if they have one reading (`escapeChars_eq_iff`). Texts
without a slash in front of such a digit are read back (`unescaped?_escape`). -/

namespace NativeHeaders.Symbol

/-! ### Letters and digits -/

/-- Letters and digits are ASCII characters. -/
theorem toNat_lt_of_isAlphanum {c : Char} (h : c.isAlphanum = true) : c.toNat < 128 := by
  have hval : c.val.toNat = c.toNat := rfl
  unfold Char.isAlphanum Char.isAlpha Char.isUpper Char.isLower Char.isDigit at h
  simp only [Bool.or_eq_true, Bool.and_eq_true, decide_eq_true_eq, UInt32.le_iff_toNat_le,
    ge_iff_le, hval] at h
  have hbounds : 'Z'.val.toNat = 90 ∧ 'z'.val.toNat = 122 ∧ '9'.val.toNat = 57 := by decide
  omega

/-- A letter or digit is none of the other characters. -/
theorem ne_of_isAlphanum {c other : Char} (h : c.isAlphanum = true)
    (hother : other.isAlphanum = false) : c ≠ other := by
  rintro rfl
  rw [h] at hother
  cases hother

/-- A character below U+10000 is read back from its code unit. -/
theorem ofNat_unitOf {c : Char} (h : c.toNat < 0x10000) : Char.ofNat (unitOf c).toNat = c := by
  rw [unitOf, UInt16.toNat_ofNat_of_lt' h, Char.ofNat_toNat]

/-- Letters and digits are not escaped. -/
theorem escapeUnit_of_isAlphanum {c : Char} (h : c.isAlphanum = true) :
    escapeUnit (unitOf c) = [c] := by
  rw [escapeUnit, ofNat_unitOf (lt_trans (toNat_lt_of_isAlphanum h) (by decide)),
    if_neg (ne_of_isAlphanum h rfl), if_neg (ne_of_isAlphanum h rfl),
    if_neg (ne_of_isAlphanum h rfl), if_neg (ne_of_isAlphanum h rfl), if_pos h]

/-- A letter or digit has one code unit. -/
theorem charUnits_of_isAlphanum {c : Char} (h : c.isAlphanum = true) :
    Text.charUnits c = [unitOf c] :=
  Text.charUnits_of_lt (lt_trans (toNat_lt_of_isAlphanum h) (by decide))

/-- A hexadecimal digit is a letter or digit. -/
theorem isAlphanum_hexDigit : ∀ digit < 16, (Text.hexDigit digit).isAlphanum = true := by
  decide

/-- So are the digits of a number in hexadecimal. -/
theorem isAlphanum_hexDigits (width number : Nat) :
    ∀ c ∈ Text.hexDigits width number, c.isAlphanum = true := by
  induction width generalizing number with
  | zero => simp [Text.hexDigits]
  | succ width ih =>
    intro c hc
    rw [Text.hexDigits, List.mem_append, List.mem_singleton] at hc
    rcases hc with hc | rfl
    · exact ih _ c hc
    · exact isAlphanum_hexDigit _ (Nat.mod_lt _ (by decide))

/-! ### How a code unit is written -/

/-- A unit is written as the letter or digit that it is, as a bare underscore, or as an underscore
with letters and digits behind it. -/
theorem escapeUnit_cases (unit : UInt16) :
    (∃ c, c.isAlphanum = true ∧ unit = unitOf c ∧ escapeUnit unit = [c]) ∨
      (unit = unitOf '/' ∧ escapeUnit unit = ['_']) ∨
      ∃ digits, digits ≠ [] ∧ (∀ c ∈ digits, c.isAlphanum = true) ∧
        escapeUnit unit = '_' :: digits := by
  unfold escapeUnit
  dsimp only
  split
  · exact .inr (.inr ⟨['1'], by decide, List.forall_mem_singleton.2 rfl, rfl⟩)
  split
  · exact .inr (.inr ⟨['2'], by decide, List.forall_mem_singleton.2 rfl, rfl⟩)
  split
  · exact .inr (.inr ⟨['3'], by decide, List.forall_mem_singleton.2 rfl, rfl⟩)
  split
  · next hslash => exact .inr (.inl ⟨eq_unitOf hslash (by decide), rfl⟩)
  split
  · next halnum =>
    have hzero : Char.ofNat unit.toNat ≠ '\x00' := by
      intro hc
      rw [hc] at halnum
      exact absurd halnum (by decide)
    exact .inl ⟨_, halnum, eq_unitOf rfl hzero, rfl⟩
  · refine .inr (.inr ⟨_, List.cons_ne_nil _ _, ?_, rfl⟩)
    rw [List.forall_mem_cons]
    exact ⟨by decide, isAlphanum_hexDigits 4 unit.toNat⟩

/-- The code unit whose escape is an underscore and the first of the characters, with the characters
behind the escape. -/
def escapeBehind? : List Char → Option (UInt16 × List Char)
  | '1' :: rest => some (unitOf '_', rest)
  | '2' :: rest => some (unitOf ';', rest)
  | '3' :: rest => some (unitOf '[', rest)
  | '0' :: a :: b :: c :: d :: rest =>
    let unit := UInt16.ofNat (hexNumber [a, b, c, d])
    if escapeUnit unit = ['_', '0', a, b, c, d] then some (unit, rest) else none
  | _ => none

/-- Four digits behind an underscore are taken for the escape of their code unit, if this unit is
escaped in this way. -/
theorem escapeBehind?_hexDigits {unit : UInt16}
    (h : escapeUnit unit = '_' :: '0' :: Text.hexDigits 4 unit.toNat) (rest : List Char) :
    escapeBehind? ('0' :: Text.hexDigits 4 unit.toNat ++ rest) = some (unit, rest) := by
  have hnumber : hexNumber (Text.hexDigits 4 unit.toNat) = unit.toNat := by
    rw [hexNumber_hexDigits]
    exact Nat.mod_eq_of_lt unit.toNat_lt
  simp only [Text.hexDigits, List.nil_append, List.cons_append] at hnumber h ⊢
  rw [escapeBehind?, hnumber, UInt16.ofNat_toNat, if_pos h]

/-- What was taken of the characters are the digits of the escape of the unit. -/
theorem exists_digits_of_escapeBehind? {chars rest : List Char} {unit : UInt16}
    (h : escapeBehind? chars = some (unit, rest)) :
    ∃ digits, digits ≠ [] ∧ escapeUnit unit = '_' :: digits ∧ chars = digits ++ rest := by
  unfold escapeBehind? at h
  split at h
  · obtain ⟨rfl, rfl⟩ : unitOf '_' = unit ∧ _ := by simpa using h
    exact ⟨['1'], by decide, by decide, rfl⟩
  · obtain ⟨rfl, rfl⟩ : unitOf ';' = unit ∧ _ := by simpa using h
    exact ⟨['2'], by decide, by decide, rfl⟩
  · obtain ⟨rfl, rfl⟩ : unitOf '[' = unit ∧ _ := by simpa using h
    exact ⟨['3'], by decide, by decide, rfl⟩
  · next a b c d tail =>
    -- Any unit can have these digits, but it need not be written with them.
    dsimp only at h
    split at h
    · next hescape =>
      obtain ⟨rfl, rfl⟩ : _ = unit ∧ tail = rest := by simpa using h
      exact ⟨['0', a, b, c, d], by simp, hescape, rfl⟩
    · cases h
  · cases h

/-- The digits of the escape of a unit are recognised. -/
theorem escapeBehind?_append {digits : List Char} {unit : UInt16} (hne : digits ≠ [])
    (hescape : escapeUnit unit = '_' :: digits) (rest : List Char) :
    escapeBehind? (digits ++ rest) = some (unit, rest) := by
  have hwritten := hescape
  unfold escapeUnit at hwritten
  dsimp only at hwritten
  split at hwritten
  · next hc =>
    obtain rfl : ['1'] = digits := (List.cons.inj hwritten).2
    rw [eq_unitOf hc (by decide)]
    rfl
  split at hwritten
  · next hc =>
    obtain rfl : ['2'] = digits := (List.cons.inj hwritten).2
    rw [eq_unitOf hc (by decide)]
    rfl
  split at hwritten
  · next hc =>
    obtain rfl : ['3'] = digits := (List.cons.inj hwritten).2
    rw [eq_unitOf hc (by decide)]
    rfl
  -- A slash, a letter or a digit is written with a single character.
  split at hwritten
  · exact absurd (List.cons.inj hwritten).2.symm hne
  split at hwritten
  · exact absurd (List.cons.inj hwritten).2.symm hne
  · obtain rfl := (List.cons.inj hwritten).2
    exact escapeBehind?_hexDigits hescape rest

/-! ### Reading a text -/

/-- The digits of an escape are used up. -/
theorem length_of_escapeBehind? {chars rest : List Char} {unit : UInt16}
    (h : escapeBehind? chars = some (unit, rest)) : rest.length < chars.length := by
  obtain ⟨digits, hne, -, rfl⟩ := exists_digits_of_escapeBehind? h
  have hpos := List.length_pos_iff.2 hne
  rw [List.length_append]
  omega

/-- The code units of a text in which a mark stands for a slash, or with the digits of an escape
behind it for the unit of the escape. -/
def readBehind (mark : Char) : List Char → List UInt16
  | [] => []
  | c :: chars =>
    if c = mark then
      match _ : escapeBehind? chars with
      | some (unit, rest) => unit :: readBehind mark rest
      | none => unitOf '/' :: readBehind mark chars
    else Text.charUnits c ++ readBehind mark chars
termination_by chars => chars.length
decreasing_by
  · have hlength := length_of_escapeBehind? ‹_›
    rw [List.length_cons]
    omega
  · simp
  · simp

/-- The code units of a text in which a slash with the digits of an escape behind it stands for the
unit of the escape. -/
def reading (chars : List Char) : List UInt16 := readBehind '/' chars

variable {mark : Char} {chars rest : List Char} {unit : UInt16}

/-- A mark with the digits of an escape behind it stands for the unit of the escape. -/
theorem readBehind_mark_some (h : escapeBehind? chars = some (unit, rest)) :
    readBehind mark (mark :: chars) = unit :: readBehind mark rest := by
  rw [readBehind, if_pos rfl]
  split
  · next hsome =>
    obtain ⟨rfl, rfl⟩ : _ = unit ∧ _ = rest := by simpa [hsome] using h
    rfl
  · next hnone =>
    rw [hnone] at h
    cases h

/-- Any other mark stands for a slash. -/
theorem readBehind_mark_none (h : escapeBehind? chars = none) :
    readBehind mark (mark :: chars) = unitOf '/' :: readBehind mark chars := by
  rw [readBehind, if_pos rfl]
  split
  · next hsome =>
    rw [hsome] at h
    cases h
  · rfl

/-- A character that is no mark stands for itself. -/
theorem readBehind_cons {c : Char} (h : c ≠ mark) (chars : List Char) :
    readBehind mark (c :: chars) = Text.charUnits c ++ readBehind mark chars := by
  rw [readBehind, if_neg h]

/-! ### What is written -/

/-- The first character is escaped unit by unit. -/
theorem escapeChars_cons (c : Char) (chars : List Char) :
    escapeChars (c :: chars) = (Text.charUnits c).flatMap escapeUnit ++ escapeChars chars := by
  rw [escapeChars, Text.units_cons, List.flatMap_append, escapeChars]

/-- A slash is escaped as an underscore. -/
theorem escapeChars_slash (chars : List Char) :
    escapeChars ('/' :: chars) = '_' :: escapeChars chars := rfl

/-- A letter or digit is left as it is. -/
theorem escapeChars_cons_of_isAlphanum {c : Char} (h : c.isAlphanum = true) (chars : List Char) :
    escapeChars (c :: chars) = c :: escapeChars chars := by
  rw [escapeChars_cons, charUnits_of_isAlphanum h, List.flatMap_singleton,
    escapeUnit_of_isAlphanum h, List.singleton_append]

/-- A letter or digit is written first exactly if it stands first. -/
theorem escapeChars_eq_cons {c : Char} (hc : c.isAlphanum = true) :
    escapeChars chars = c :: rest ↔ ∃ tail, chars = c :: tail ∧ escapeChars tail = rest := by
  constructor
  · intro h
    cases chars with
    | nil => cases h
    | cons d tail =>
      obtain ⟨unit, units, hunits, hfirst⟩ := charUnits_eq_cons d
      have hunderscore : c ≠ '_' := ne_of_isAlphanum hc rfl
      rw [escapeChars_cons, hunits, List.flatMap_cons, List.append_assoc] at h
      rcases escapeUnit_cases unit with ⟨e, -, hunit, hescape⟩ | ⟨-, hescape⟩ | ⟨_, -, -, hescape⟩
      · -- The first unit is that of the letter or digit, and so is the first character.
        rw [hescape] at h
        obtain rfl : e = c := (List.cons.inj h).1
        have hlt : e.toNat < 0x10000 := lt_trans (toNat_lt_of_isAlphanum hc) (by decide)
        rw [hunit, ofNat_unitOf hlt] at hfirst
        rcases hfirst with rfl | rfl
        · refine ⟨tail, rfl, ?_⟩
          rw [charUnits_of_isAlphanum hc] at hunits
          obtain ⟨-, rfl⟩ := List.cons.inj hunits
          exact (List.cons.inj h).2
        · exact absurd hc (by decide)
      · rw [hescape] at h
        exact absurd (List.cons.inj h).1.symm hunderscore
      · rw [hescape] at h
        exact absurd (List.cons.inj h).1.symm hunderscore
  · rintro ⟨tail, rfl, rfl⟩
    exact escapeChars_cons_of_isAlphanum hc tail

/-- Letters and digits are written first exactly if they stand first. -/
theorem escapeChars_eq_append {digits : List Char} (h : ∀ c ∈ digits, c.isAlphanum = true) :
    escapeChars chars = digits ++ rest ↔
      ∃ tail, chars = digits ++ tail ∧ escapeChars tail = rest := by
  induction digits generalizing chars with
  | nil => simp
  | cons c digits ih =>
    obtain ⟨hc, hdigits⟩ := List.forall_mem_cons.1 h
    rw [List.cons_append, escapeChars_eq_cons hc]
    constructor
    · rintro ⟨middle, rfl, hmiddle⟩
      obtain ⟨tail, rfl, htail⟩ := (ih hdigits).1 hmiddle
      exact ⟨tail, rfl, htail⟩
    · rintro ⟨tail, rfl, htail⟩
      exact ⟨digits ++ tail, rfl, (ih hdigits).2 ⟨tail, rfl, htail⟩⟩

/-- Letters and digits in front are left as they are. -/
theorem escapeChars_append_of_isAlphanum {digits : List Char}
    (h : ∀ c ∈ digits, c.isAlphanum = true) (rest : List Char) :
    escapeChars (digits ++ rest) = digits ++ escapeChars rest :=
  (escapeChars_eq_append h).2 ⟨rest, rfl, rfl⟩

/-- The characters behind the underscore of an escape are letters or digits. -/
theorem isAlphanum_of_escapeUnit {digits : List Char} (h : escapeUnit unit = '_' :: digits) :
    ∀ c ∈ digits, c.isAlphanum = true := by
  rcases escapeUnit_cases unit with ⟨c, hc, -, hescape⟩ | ⟨-, hescape⟩ | ⟨_, -, hdigits, hescape⟩
  · rw [hescape] at h
    obtain ⟨rfl, -⟩ := List.cons.inj h
    exact absurd hc (by decide)
  · rw [hescape] at h
    obtain ⟨-, rfl⟩ := List.cons.inj h
    simp
  · rw [hescape] at h
    obtain ⟨-, rfl⟩ := List.cons.inj h
    exact hdigits

/-- Only letters, digits and underscores are written. -/
theorem isAlphanum_or_eq_of_mem_escapeChars {c : Char} (h : c ∈ escapeChars chars) :
    c.isAlphanum = true ∨ c = '_' := by
  obtain ⟨unit, -, hc⟩ := List.mem_flatMap.1 h
  rcases escapeUnit_cases unit with ⟨d, hd, -, hescape⟩ | ⟨-, hescape⟩ |
    ⟨digits, -, hdigits, hescape⟩
  · rw [hescape, List.mem_singleton] at hc
    rw [hc]
    exact .inl hd
  · rw [hescape, List.mem_singleton] at hc
    exact .inr hc
  · rw [hescape, List.mem_cons] at hc
    exact hc.symm.imp_left (hdigits c)

/-- The digits of an escape stand first in a text exactly if they stand first in what is written. -/
theorem escapeBehind?_escapeChars (chars : List Char) :
    escapeBehind? (escapeChars chars) =
      (escapeBehind? chars).map fun (unit, rest) => (unit, escapeChars rest) := by
  ext ⟨unit, rest⟩
  simp only [Option.map_eq_some_iff, Prod.exists, Prod.mk.injEq]
  constructor
  · intro h
    obtain ⟨digits, hne, hescape, hchars⟩ := exists_digits_of_escapeBehind? h
    obtain ⟨tail, rfl, htail⟩ := (escapeChars_eq_append (isAlphanum_of_escapeUnit hescape)).1 hchars
    exact ⟨unit, tail, escapeBehind?_append hne hescape tail, rfl, htail⟩
  · rintro ⟨_, tail, h, rfl, rfl⟩
    obtain ⟨digits, hne, hescape, rfl⟩ := exists_digits_of_escapeBehind? h
    rw [escapeChars_append_of_isAlphanum (isAlphanum_of_escapeUnit hescape)]
    exact escapeBehind?_append hne hescape _

/-! ### Readings and what is written -/

/-- The unit of a character below the surrogates belongs to no other character. -/
theorem unitOf_notMem_charUnits {c other : Char} (hother : other.toNat < 0xD800)
    (h : c ≠ other) : unitOf other ∉ Text.charUnits c := by
  have hchar : Char.ofNat (unitOf other).toNat = other :=
    ofNat_unitOf (lt_trans hother (by decide))
  by_cases hlt : c.toNat < 0x10000
  · rw [Text.charUnits_of_lt hlt, List.mem_singleton]
    intro hunit
    rw [hunit] at hchar
    exact h ((ofNat_unitOf hlt).symm.trans hchar)
  · obtain ⟨high, low, hunits, hhigh, hlow, -⟩ := Text.charUnits_of_not_lt hlt
    have hnumber : (unitOf other).toNat = other.toNat :=
      UInt16.toNat_ofNat_of_lt' (lt_trans hother (by decide))
    rw [Text.isHighSurrogate_eq, decide_eq_true_iff] at hhigh
    rw [Text.isLowSurrogate_eq, decide_eq_true_iff] at hlow
    rw [hunits, List.mem_cons, List.mem_singleton]
    rintro (hunit | hunit)
    · rw [← hunit] at hhigh
      omega
    · rw [← hunit] at hlow
      omega

/-- The escape of a unit is read back, unless the unit is a slash. -/
theorem readBehind_escapeUnit_append (h : unit ≠ unitOf '/') (rest : List Char) :
    readBehind '_' (escapeUnit unit ++ rest) = unit :: readBehind '_' rest := by
  rcases escapeUnit_cases unit with ⟨c, hc, hunit, hescape⟩ | ⟨hunit, -⟩ |
    ⟨digits, hne, -, hescape⟩
  · rw [hescape, List.singleton_append, readBehind_cons (ne_of_isAlphanum hc rfl),
      charUnits_of_isAlphanum hc, hunit, List.singleton_append]
  · exact absurd hunit h
  · rw [hescape, List.cons_append]
    exact readBehind_mark_some (escapeBehind?_append hne hescape rest)

/-- Escaped code units are read back, if none of them is a slash. -/
theorem readBehind_flatMap_escapeUnit_append {units : List UInt16} (h : unitOf '/' ∉ units)
    (rest : List Char) :
    readBehind '_' (units.flatMap escapeUnit ++ rest) = units ++ readBehind '_' rest := by
  induction units with
  | nil => rfl
  | cons unit units ih =>
    rw [List.mem_cons, not_or] at h
    rw [List.flatMap_cons, List.append_assoc, readBehind_escapeUnit_append (Ne.symm h.1),
      ih h.2, List.cons_append]

/-- The reading of a text can be told from what is written. -/
theorem readBehind_escapeChars (chars : List Char) :
    readBehind '_' (escapeChars chars) = reading chars := by
  unfold reading
  induction chars using readBehind.induct '/' with
  | case1 => rw [escapeChars_nil, readBehind, readBehind]
  | case2 chars unit rest hsome ih =>
    have hwritten := escapeBehind?_escapeChars chars
    rw [hsome, Option.map_some] at hwritten
    rw [escapeChars_slash, readBehind_mark_some hwritten, readBehind_mark_some hsome, ih]
  | case3 chars hnone ih =>
    have hwritten := escapeBehind?_escapeChars chars
    rw [hnone, Option.map_none] at hwritten
    rw [escapeChars_slash, readBehind_mark_none hwritten, readBehind_mark_none hnone, ih]
  | case4 c chars hne ih =>
    rw [escapeChars_cons,
      readBehind_flatMap_escapeUnit_append (unitOf_notMem_charUnits (by decide) hne),
      readBehind_cons hne, ih]

/-- What is written can be told from the reading of a text. -/
theorem flatMap_escapeUnit_reading (chars : List Char) :
    (reading chars).flatMap escapeUnit = escapeChars chars := by
  unfold reading
  induction chars using readBehind.induct '/' with
  | case1 => rw [readBehind, List.flatMap_nil, escapeChars_nil]
  | case2 chars unit rest hsome ih =>
    obtain ⟨digits, -, hescape, rfl⟩ := exists_digits_of_escapeBehind? hsome
    rw [readBehind_mark_some hsome, List.flatMap_cons, hescape, ih, escapeChars_slash,
      escapeChars_append_of_isAlphanum (isAlphanum_of_escapeUnit hescape), List.cons_append]
  | case3 chars hnone ih =>
    rw [readBehind_mark_none hnone, List.flatMap_cons, ih, escapeChars_slash]
    rfl
  | case4 c chars hne ih =>
    rw [readBehind_cons hne, List.flatMap_append, ih, escapeChars_cons]

/-- Two texts are written alike exactly if they have one reading. -/
theorem escapeChars_eq_iff {first second : List Char} :
    escapeChars first = escapeChars second ↔ reading first = reading second := by
  constructor
  · intro h
    rw [← readBehind_escapeChars, h, readBehind_escapeChars]
  · intro h
    rw [← flatMap_escapeUnit_reading, h, flatMap_escapeUnit_reading]

/-! ### Whole texts -/

/-- The text that an escaped text stands for, if the code units are those of a text. -/
def unescaped? (symbol : String) : Option String :=
  (Text.charsOfUnits? (unescape symbol.toList)).map String.ofList

/-- A text without ambiguous slashes is read back from its escape. -/
theorem unescaped?_escape {text : String} (h : SlashSafe text.toList) :
    unescaped? (escape text) = some text := by
  rw [unescaped?, escape, String.toList_ofList, unescape_escapeChars h,
    Text.charsOfUnits?_units, Option.map_some, String.ofList_toList]

/-- Every text is written with letters, digits and underscores. Texts without ambiguous slashes can
be read back, so that different ones are never written alike. -/
theorem escape_alphabet_and_decoding (text other : String) :
    (∀ c ∈ (escape text).toList, c.isAlphanum = true ∨ c = '_') ∧
      (SlashSafe text.toList → unescaped? (escape text) = some text) ∧
      (SlashSafe text.toList → SlashSafe other.toList → escape text = escape other →
        text = other) := by
  refine ⟨fun c hc => ?_, unescaped?_escape, fun htext hother h => ?_⟩
  · rw [escape, String.toList_ofList] at hc
    exact isAlphanum_or_eq_of_mem_escapeChars hc
  · have hread := unescaped?_escape htext
    rw [h, unescaped?_escape hother, Option.some_inj] at hread
    exact hread.symm

/-- A character with two code units is read back, and it is not written like its escape, in which
every underscore is escaped. -/
theorem escape_supplementary :
    (SlashSafe "a/😀".toList ∧ SlashSafe "a/_0d83d_0de00".toList) ∧
      (∀ c ∈ (escape "a/😀").toList, c.isAlphanum = true ∨ c = '_') ∧
      unescaped? (escape "a/😀") = some "a/😀" ∧
      escape "a/😀" ≠ escape "a/_0d83d_0de00" := by
  have hsafe : SlashSafe "a/😀".toList ∧ SlashSafe "a/_0d83d_0de00".toList := by decide
  obtain ⟨halphabet, hread, hinj⟩ := escape_alphabet_and_decoding "a/😀" "a/_0d83d_0de00"
  exact ⟨hsafe, halphabet, hread hsafe.1,
    fun h => absurd (hinj hsafe.1 hsafe.2 h) (by decide)⟩

end NativeHeaders.Symbol
