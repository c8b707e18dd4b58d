import Mathlib.Algebra.Group.Nat.Defs
import Mathlib.Data.List.Chain
import NativeHeaders.Proofs.Text.Utf16
import NativeHeaders.Symbol

/-! # Reading back escaped names

Escaping is not prefix free, because `/` is written as a bare underscore: `unescape` has to look at
the character behind an underscore to tell a slash from an escape. It gives the code units back as
long as no slash stands directly before one of the digits that follow the underscore of an escape
(`unescape_escapeChars`), so that two such texts are never written alike (`escapeChars_inj`). -/

namespace NativeHeaders.Symbol

/-! ### Hexadecimal numbers -/

/-- The number that hexadecimal digits stand for. -/
def hexNumber (digits : List Char) : Nat :=
  digits.foldl (fun number digit => number * 16 + (Text.hexValue? digit).getD 0) 0

/-- Every hexadecimal digit is read back. -/
theorem hexValue?_hexDigit : ∀ digit < 16, Text.hexValue? (Text.hexDigit digit) = some digit := by
  decide

/-- As many digits as are written determine the number up to what they can hold. -/
theorem hexNumber_hexDigits (width number : Nat) :
    hexNumber (Text.hexDigits width number) = number % 16 ^ width := by
  induction width generalizing number with
  | zero => simp [Text.hexDigits, hexNumber, Nat.mod_one]
  | succ width ih =>
    -- The last digit is the remainder, and those in front of it are the quotient.
    have hdigit : number % 16 < 16 := Nat.mod_lt _ (by decide)
    have hfold : hexNumber (Text.hexDigits width (number / 16) ++ [Text.hexDigit (number % 16)]) =
        hexNumber (Text.hexDigits width (number / 16)) * 16 + number % 16 := by
      simp [hexNumber, hexValue?_hexDigit _ hdigit]
    rw [Text.hexDigits, hfold, ih, Nat.pow_succ, Nat.mul_comm (16 ^ width) 16, Nat.mod_mul]
    omega

/-! ### The decoder -/

/-- The code unit of a character below U+10000. -/
def unitOf (c : Char) : UInt16 := UInt16.ofNat c.toNat

/-- The code units that an escaped text stands for. An underscore before `0`, `1`, `2` or `3` starts
an escape, and any other one is a slash. -/
def unescape : List Char → List UInt16
  | '_' :: '0' :: a :: b :: c :: d :: rest => UInt16.ofNat (hexNumber [a, b, c, d]) :: unescape rest
  | '_' :: '1' :: rest => unitOf '_' :: unescape rest
  | '_' :: '2' :: rest => unitOf ';' :: unescape rest
  | '_' :: '3' :: rest => unitOf '[' :: unescape rest
  | '_' :: rest => unitOf '/' :: unescape rest
  | c :: rest => unitOf c :: unescape rest
  | [] => []

/-- The characters that make an underscore in front of them the start of an escape. -/
def isEscapeDigit (c : Char) : Bool := c = '0' || c = '1' || c = '2' || c = '3'

/-- No slash stands directly before a digit that would make its underscore the start of an escape.
-/
def SlashSafe (chars : List Char) : Prop :=
  List.IsChain (fun before after => before = '/' → isEscapeDigit after = false) chars

instance (chars : List Char) : Decidable (SlashSafe chars) :=
  inferInstanceAs (Decidable (List.IsChain _ chars))

/-- What stands behind the underscore of a slash does not start with the digit of an escape. -/
def StartsNoEscape (chars : List Char) : Prop := ∀ c ∈ chars.head?, isEscapeDigit c = false

/-- An underscore without the digit of an escape behind it stands for a slash. -/
theorem unescape_slash {rest : List Char} (h : StartsNoEscape rest) :
    unescape ('_' :: rest) = unitOf '/' :: unescape rest := by
  cases rest with
  | nil => simp [unescape]
  | cons c rest =>
    have hc : isEscapeDigit c = false := h c rfl
    -- The cases in front of that of a slash are those of escapes.
    rw [unescape]
    all_goals
      intros
      rename_i htail
      cases htail
      exact absurd hc (by decide)

/-- A character that is no underscore stands for itself. -/
theorem unescape_cons {c : Char} (h : c ≠ '_') (rest : List Char) :
    unescape (c :: rest) = unitOf c :: unescape rest := by
  rw [unescape]
  all_goals
    intros
    exact h ‹_›

/-! ### Reading back a code unit -/

/-- A code unit that is a character is the unit of this character. -/
theorem eq_unitOf {unit : UInt16} {c : Char} (h : Char.ofNat unit.toNat = c) (hc : c ≠ '\x00') :
    unit = unitOf c := by
  rw [unitOf, ← Text.eq_toNat_of_ofNat_eq h hc, UInt16.ofNat_toNat]

/-- The escape of a code unit by four digits stands for this unit. -/
theorem unescape_hexDigits (unit : UInt16) (rest : List Char) :
    unescape ('_' :: '0' :: Text.hexDigits 4 unit.toNat ++ rest) = unit :: unescape rest := by
  have hnumber : hexNumber (Text.hexDigits 4 unit.toNat) = unit.toNat := by
    rw [hexNumber_hexDigits]
    exact Nat.mod_eq_of_lt unit.toNat_lt
  simp only [Text.hexDigits, List.nil_append, List.cons_append] at hnumber ⊢
  rw [unescape, hnumber, UInt16.ofNat_toNat]

/-- An escaped code unit is read back, with a look at what follows if it is a slash. -/
theorem unescape_escapeUnit_append (unit : UInt16) {rest : List Char}
    (h : Char.ofNat unit.toNat = '/' → StartsNoEscape rest) :
    unescape (escapeUnit unit ++ rest) = unit :: unescape rest := by
  unfold escapeUnit
  dsimp only
  split
  · next hc => rw [eq_unitOf hc (by decide)]; rfl
  split
  · next hc => rw [eq_unitOf hc (by decide)]; rfl
  split
  · next hc => rw [eq_unitOf hc (by decide)]; rfl
  split
  · next hc => rw [List.singleton_append, unescape_slash (h hc), ← eq_unitOf hc (by decide)]
  split
  · -- A letter or digit is kept as it is.
    next hne _ _ _ halnum =>
    have hzero : Char.ofNat unit.toNat ≠ '\x00' := by
      intro hc
      rw [hc] at halnum
      exact absurd halnum (by decide)
    rw [List.singleton_append, unescape_cons hne, ← eq_unitOf rfl hzero]
  · exact unescape_hexDigits unit rest

/-! ### Reading back texts -/

/-- An escaped code unit begins with an underscore or with its own character. -/
theorem head?_escapeUnit_append (unit : UInt16) (rest : List Char) :
    (escapeUnit unit ++ rest).head? = some '_' ∨
      (escapeUnit unit ++ rest).head? = some (Char.ofNat unit.toNat) := by
  unfold escapeUnit
  dsimp only
  split_ifs <;> simp

/-- The first unit of a character is its own number, or that of no character. -/
theorem charUnits_eq_cons (c : Char) :
    ∃ unit units, Text.charUnits c = unit :: units ∧
      (Char.ofNat unit.toNat = c ∨ Char.ofNat unit.toNat = '\x00') := by
  by_cases hlt : c.toNat < 0x10000
  · refine ⟨_, _, Text.charUnits_of_lt hlt, Or.inl ?_⟩
    rw [UInt16.toNat_ofNat_of_lt' hlt, Char.ofNat_toNat]
  · obtain ⟨high, low, hunits, hhigh, -, -⟩ := Text.charUnits_of_not_lt hlt
    exact ⟨_, _, hunits, Or.inr (Text.ofNat_of_isHighSurrogate hhigh)⟩

/-- An escaped text starts with the digit of an escape only if the text does. -/
theorem startsNoEscape_escapeChars {chars : List Char} (h : StartsNoEscape chars) :
    StartsNoEscape (escapeChars chars) := by
  cases chars with
  | nil => simp [StartsNoEscape]
  | cons c chars =>
    obtain ⟨unit, units, hunits, hunit⟩ := charUnits_eq_cons c
    have hdigit : isEscapeDigit (Char.ofNat unit.toNat) = false := by
      rcases hunit with hunit | hunit
      · rw [hunit]
        exact h c rfl
      · rw [hunit]
        decide
    -- An escape starts with an underscore, and anything else is kept.
    intro d hd
    rw [escapeChars, Text.units_cons, hunits, List.cons_append, List.flatMap_cons] at hd
    rcases head?_escapeUnit_append unit ((units ++ Text.units chars).flatMap escapeUnit) with
      hhead | hhead
    · rw [hhead, Option.mem_some_iff] at hd
      rw [← hd]
      decide
    · rw [hhead, Option.mem_some_iff] at hd
      rwa [← hd]

/-- A character is read back from its escape, with a look at what follows if it is a slash. -/
theorem unescape_escapeChar_append (c : Char) {rest : List Char}
    (h : c = '/' → StartsNoEscape rest) :
    unescape ((Text.charUnits c).flatMap escapeUnit ++ rest) =
      Text.charUnits c ++ unescape rest := by
  by_cases hlt : c.toNat < 0x10000
  · rw [Text.charUnits_of_lt hlt, List.flatMap_singleton, List.singleton_append]
    refine unescape_escapeUnit_append _ fun hc => h ?_
    rwa [UInt16.toNat_ofNat_of_lt' hlt, Char.ofNat_toNat] at hc
  · obtain ⟨high, low, hunits, hhigh, hlow, -⟩ := Text.charUnits_of_not_lt hlt
    have hslash : '\x00' ≠ '/' := by decide
    rw [hunits, List.flatMap_cons, List.flatMap_singleton, List.append_assoc,
      unescape_escapeUnit_append high
        fun hc => absurd ((Text.ofNat_of_isHighSurrogate hhigh).symm.trans hc) hslash,
      unescape_escapeUnit_append low
        fun hc => absurd ((Text.ofNat_of_isLowSurrogate hlow).symm.trans hc) hslash]
    rfl

/-- The code units of a text without ambiguous slashes are read back from its escape. -/
theorem unescape_escapeChars {chars : List Char} (h : SlashSafe chars) :
    unescape (escapeChars chars) = Text.units chars := by
  induction chars with
  | nil => rfl
  | cons c chars ih =>
    have hsplit : escapeChars (c :: chars) =
        (Text.charUnits c).flatMap escapeUnit ++ escapeChars chars := by
      rw [escapeChars, Text.units_cons, List.flatMap_append, escapeChars]
    rw [SlashSafe, List.isChain_cons] at h
    have hnext : c = '/' → StartsNoEscape (escapeChars chars) :=
      fun hc => startsNoEscape_escapeChars fun d hd => h.1 d hd hc
    rw [hsplit, unescape_escapeChar_append c hnext, ih h.2, Text.units_cons]

/-- Texts without ambiguous slashes that are written alike are equal. -/
theorem escapeChars_inj {first second : List Char} (hfirst : SlashSafe first)
    (hsecond : SlashSafe second) : escapeChars first = escapeChars second ↔ first = second := by
  constructor
  · intro h
    apply Text.units_injective
    rw [← unescape_escapeChars hfirst, h, unescape_escapeChars hsecond]
  · intro h
    rw [h]

end NativeHeaders.Symbol
