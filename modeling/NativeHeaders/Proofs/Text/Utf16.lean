import NativeHeaders.Text.Utf16

/-! # Reading back UTF-16 code units

`charsOfUnits?` undoes `units`, so a text is determined by its code units. A character below U+10000
is no surrogate, and any other one is the pair of surrogates that `pairChar` puts together again. -/

namespace NativeHeaders.Text

/-- Numbers of characters leave out the surrogates. -/
theorem toNat_of_char (c : Char) :
    c.toNat < 0xD800 ∨ 0xDFFF < c.toNat ∧ c.toNat < 0x110000 := c.valid

/-- The number of a character is read back. -/
theorem toNat_ofNat_of_valid {n : Nat} (h : n.isValidChar) : (Char.ofNat n).toNat = n := by
  rw [Char.ofNat, dif_pos h]
  rfl

/-- A number that is the number of no character gives the character U+0000. -/
theorem ofNat_of_not_valid {n : Nat} (h : ¬n.isValidChar) : Char.ofNat n = '\x00' := by
  rw [Char.ofNat, dif_neg h]
  rfl

/-- Only its own number gives a character other than U+0000. -/
theorem eq_toNat_of_ofNat_eq {n : Nat} {c : Char} (h : Char.ofNat n = c) (hc : c ≠ '\x00') :
    n = c.toNat := by
  by_cases hn : n.isValidChar
  · rw [← h, toNat_ofNat_of_valid hn]
  · exact absurd (h.symm.trans (ofNat_of_not_valid hn)) hc

/-- A character below U+10000 is one code unit. -/
theorem charUnits_of_lt {c : Char} (h : c.toNat < 0x10000) :
    charUnits c = [UInt16.ofNat c.toNat] := by
  simp only [charUnits, if_pos h]

/-- High surrogates are the code units from `0xD800` on and below `0xDC00`. -/
theorem isHighSurrogate_eq (unit : UInt16) :
    isHighSurrogate unit = decide (0xD800 ≤ unit.toNat ∧ unit.toNat < 0xDC00) := by
  simp [isHighSurrogate, UInt16.le_iff_toNat_le, UInt16.lt_iff_toNat_lt]

/-- Low surrogates are the code units from `0xDC00` on and below `0xE000`. -/
theorem isLowSurrogate_eq (unit : UInt16) :
    isLowSurrogate unit = decide (0xDC00 ≤ unit.toNat ∧ unit.toNat < 0xE000) := by
  simp [isLowSurrogate, UInt16.le_iff_toNat_le, UInt16.lt_iff_toNat_lt]

/-- A unit that is no surrogate is read as the character of its number. -/
theorem charsOfUnits?_cons {unit : UInt16} (hhigh : isHighSurrogate unit = false)
    (hlow : isLowSurrogate unit = false) (rest : List UInt16) :
    charsOfUnits? (unit :: rest) = (charsOfUnits? rest).map (Char.ofNat unit.toNat :: ·) := by
  rw [charsOfUnits?.eq_def]
  simp [hhigh, hlow]

/-- Two surrogates in order are read as one character. -/
theorem charsOfUnits?_pair {high low : UInt16} (hhigh : isHighSurrogate high = true)
    (hlow : isLowSurrogate low = true) (rest : List UInt16) :
    charsOfUnits? (high :: low :: rest) = (charsOfUnits? rest).map (pairChar high low :: ·) := by
  rw [charsOfUnits?.eq_def]
  simp [hhigh, hlow]

/-- A character above U+FFFF is written as the pair of surrogates that stands for it. -/
theorem charUnits_of_not_lt {c : Char} (h : ¬c.toNat < 0x10000) :
    ∃ high low, charUnits c = [high, low] ∧ isHighSurrogate high = true ∧
      isLowSurrogate low = true ∧ pairChar high low = c := by
  have hvalid := toNat_of_char c
  have hhigh : (UInt16.ofNat (0xD800 + (c.toNat - 0x10000) / 0x400)).toNat =
      0xD800 + (c.toNat - 0x10000) / 0x400 :=
    UInt16.toNat_ofNat_of_lt' (by simp only [UInt16.size]; omega)
  have hlow : (UInt16.ofNat (0xDC00 + (c.toNat - 0x10000) % 0x400)).toNat =
      0xDC00 + (c.toNat - 0x10000) % 0x400 :=
    UInt16.toNat_ofNat_of_lt' (by simp only [UInt16.size]; omega)
  -- The offset is put together from its two halves.
  have hsum : 0x10000 + (0xD800 + (c.toNat - 0x10000) / 0x400 - 0xD800) * 0x400 +
      (0xDC00 + (c.toNat - 0x10000) % 0x400 - 0xDC00) = c.toNat := by omega
  refine ⟨_, _, by rw [charUnits, if_neg h], ?_, ?_, ?_⟩
  · rw [isHighSurrogate_eq, hhigh, decide_eq_true_iff]
    omega
  · rw [isLowSurrogate_eq, hlow, decide_eq_true_iff]
    omega
  · rw [pairChar, hhigh, hlow, hsum, Char.ofNat_toNat]

/-- A surrogate is the number of no character. -/
theorem ofNat_of_isHighSurrogate {unit : UInt16} (h : isHighSurrogate unit = true) :
    Char.ofNat unit.toNat = '\x00' := by
  rw [isHighSurrogate_eq, decide_eq_true_iff] at h
  exact ofNat_of_not_valid (by simp only [Nat.isValidChar]; omega)

/-- A low surrogate is no character by itself. -/
theorem ofNat_of_isLowSurrogate {unit : UInt16} (h : isLowSurrogate unit = true) :
    Char.ofNat unit.toNat = '\x00' := by
  rw [isLowSurrogate_eq, decide_eq_true_iff] at h
  exact ofNat_of_not_valid (by simp only [Nat.isValidChar]; omega)

/-- The code units of a character are read back as the character. -/
theorem charsOfUnits?_charUnits_append (c : Char) (rest : List UInt16) :
    charsOfUnits? (charUnits c ++ rest) = (charsOfUnits? rest).map (c :: ·) := by
  by_cases hlt : c.toNat < 0x10000
  · have hvalid := toNat_of_char c
    have hunit : (UInt16.ofNat c.toNat).toNat = c.toNat := UInt16.toNat_ofNat_of_lt' hlt
    rw [charUnits_of_lt hlt, List.singleton_append, charsOfUnits?_cons, hunit, Char.ofNat_toNat]
    · rw [isHighSurrogate_eq, hunit, decide_eq_false_iff_not]
      omega
    · rw [isLowSurrogate_eq, hunit, decide_eq_false_iff_not]
      omega
  · obtain ⟨high, low, hunits, hhigh, hlow, hpair⟩ := charUnits_of_not_lt hlt
    rw [hunits, List.cons_append, List.singleton_append, charsOfUnits?_pair hhigh hlow, hpair]

/-- The code units of a text are read back as the text. -/
theorem charsOfUnits?_units (chars : List Char) : charsOfUnits? (units chars) = some chars := by
  induction chars with
  | nil => rfl
  | cons c chars ih => rw [units_cons, charsOfUnits?_charUnits_append, ih, Option.map_some]

/-- Texts with the same code units are equal. -/
theorem units_injective : Function.Injective units := by
  intro first second h
  have hread := congrArg charsOfUnits? h
  rwa [charsOfUnits?_units, charsOfUnits?_units, Option.some_inj] at hread

end NativeHeaders.Text
