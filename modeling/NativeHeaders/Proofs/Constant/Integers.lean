import Mathlib.Algebra.Group.Nat.Defs
import Mathlib.Data.List.Basic
import NativeHeaders.Constant

/-! # Integer constants of C

A minus sign does not belong to an integer constant of C: it is an operator in front of one, so the
digits alone have to fit the type that the suffix names. The literal of an integer is read in one
way only (`text_injective`), which gives the integer, and the digits fit unless it is the least one
of its width, whose digits stand for one more than the greatest number. -/

namespace NativeHeaders

/-- The signed types that the suffixes of integer constants name. -/
inductive SignedType where
  /-- The type `long`. -/
  | long
  /-- The type `long long`. -/
  | longLong
deriving DecidableEq

namespace SignedType

/-- The suffix that names the type. -/
def suffix : SignedType → List Char
  | .long => ['L']
  | .longLong => ['L', 'L']

/-- The number of bits that the type has at least. -/
def width : SignedType → Nat
  | .long => 32
  | .longLong => 64

/-- The greatest number that the type holds everywhere. -/
def greatest (type : SignedType) : Nat := 2 ^ (type.width - 1) - 1

/-- Types with the same suffix are the same. -/
theorem suffix_injective : Function.Injective suffix := by
  intro first second h
  cases first <;> cases second <;> simp_all [suffix]

end SignedType

/-- A decimal integer constant, with a minus sign in front of it or without. -/
@[ext] structure IntegerConstant where
  /-- Whether there is a minus sign. -/
  isNegative : Bool
  /-- The digits. -/
  digits : List Char
  /-- The type that the suffix names. -/
  type : SignedType
  /-- There is a digit. -/
  digits_ne_nil : digits ≠ []
  /-- All digits are decimal ones. -/
  isDigit_of_mem : ∀ c ∈ digits, c.isDigit = true
  /-- Digits behind a leading zero would be octal ones. -/
  eq_zero_of_head : digits.head? = some '0' → digits = ['0']

namespace IntegerConstant

/-- The minus sign, if there is one. -/
def sign (constant : IntegerConstant) : List Char := if constant.isNegative then ['-'] else []

/-- How the constant is written. -/
def text (constant : IntegerConstant) : String :=
  String.ofList (constant.sign ++ constant.digits ++ constant.type.suffix)

/-- The number that the digits stand for. -/
def magnitude (constant : IntegerConstant) : Nat := Nat.ofDigitChars 10 constant.digits 0

/-- The number that the constant and its sign give. -/
def value (constant : IntegerConstant) : Int :=
  if constant.isNegative then -constant.magnitude else constant.magnitude

/-- Whether the number that the digits stand for fits the type. -/
def Fits (constant : IntegerConstant) : Prop := constant.magnitude ≤ constant.type.greatest

/-! ### Reading a constant -/

/-- No character of the digits is anything but a digit. -/
theorem filter_digits (constant : IntegerConstant) {c : Char} (hc : c.isDigit = false) :
    constant.digits.filter (· = c) = [] := by
  rw [List.filter_eq_nil_iff]
  intro digit hdigit heq
  rw [decide_eq_true_eq] at heq
  rw [← heq, constant.isDigit_of_mem digit hdigit] at hc
  cases hc

/-- What passes a test in the text of a constant passes it in its sign, its digits or its suffix. -/
theorem filter_text (constant : IntegerConstant) (p : Char → Bool) :
    constant.text.toList.filter p =
      constant.sign.filter p ++ constant.digits.filter p ++ constant.type.suffix.filter p := by
  rw [text, String.toList_ofList, List.filter_append, List.filter_append]

/-- The digits of a constant can be read off its text. -/
theorem filter_isDigit_text (constant : IntegerConstant) :
    constant.text.toList.filter Char.isDigit = constant.digits := by
  have hsign : constant.sign.filter Char.isDigit = [] := by
    unfold sign
    split <;> rfl
  have hsuffix : constant.type.suffix.filter Char.isDigit = [] := by
    cases constant.type <;> rfl
  rw [filter_text, hsign, hsuffix, List.filter_eq_self.2 constant.isDigit_of_mem, List.nil_append,
    List.append_nil]

/-- So can its sign. -/
theorem filter_minus_text (constant : IntegerConstant) :
    constant.text.toList.filter (· = '-') = constant.sign := by
  have hsign : constant.sign.filter (· = '-') = constant.sign := by
    unfold sign
    split <;> rfl
  have hsuffix : constant.type.suffix.filter (· = '-') = [] := by
    cases constant.type <;> rfl
  rw [filter_text, hsign, hsuffix, constant.filter_digits rfl, List.append_nil, List.append_nil]

/-- So can its suffix, and with it its type. -/
theorem filter_letter_text (constant : IntegerConstant) :
    constant.text.toList.filter (· = 'L') = constant.type.suffix := by
  have hsign : constant.sign.filter (· = 'L') = [] := by
    unfold sign
    split <;> rfl
  have hsuffix : constant.type.suffix.filter (· = 'L') = constant.type.suffix := by
    cases constant.type <;> rfl
  rw [filter_text, hsign, hsuffix, constant.filter_digits rfl, List.nil_append, List.nil_append]

/-- The sign, the digits and the suffix are told apart by their characters. -/
theorem text_injective : Function.Injective text := by
  intro first second h
  have hsign : first.sign = second.sign := by
    rw [← filter_minus_text, h, filter_minus_text]
  apply IntegerConstant.ext
  · cases hfirst : first.isNegative <;> cases hsecond : second.isNegative <;>
      simp_all [sign]
  · rw [← filter_isDigit_text, h, filter_isDigit_text]
  · apply SignedType.suffix_injective
    rw [← filter_letter_text, h, filter_letter_text]

/-! ### Writing a number -/

/-- Only zero is written with a leading zero. -/
theorem toDigits_eq_zero_of_head (number : Nat)
    (h : (Nat.toDigits 10 number).head? = some '0') : Nat.toDigits 10 number = ['0'] := by
  induction number using Nat.strongRecOn with
  | ind number ih =>
    rw [Nat.toDigits_eq_if (by decide)] at h ⊢
    split
    · next hlt =>
      rw [if_pos hlt] at h
      simpa using h
    · next hge =>
      -- The leading digit is that of the quotient, which is not zero.
      rw [if_neg hge, List.head?_append_of_ne_nil _ Nat.toDigits_ne_nil] at h
      have hdigits := ih (number / 10) (by omega) h
      have hquotient : Nat.ofDigitChars 10 ['0'] 0 = number / 10 := by
        rw [← hdigits, Nat.ofDigitChars_ten_toDigits]
      have hzero : Nat.ofDigitChars 10 ['0'] 0 = 0 := rfl
      omega

/-- The constant of a type for a number. -/
def ofInt (type : SignedType) (number : Int) : IntegerConstant where
  isNegative := number < 0
  digits := Nat.toDigits 10 number.natAbs
  type := type
  digits_ne_nil := Nat.toDigits_ne_nil
  isDigit_of_mem := fun _ => Nat.isDigit_of_mem_toDigits (by decide) (by decide)
  eq_zero_of_head := toDigits_eq_zero_of_head number.natAbs

/-- The digits of the constant for a number have its absolute value. -/
theorem magnitude_ofInt (type : SignedType) (number : Int) :
    (ofInt type number).magnitude = number.natAbs := Nat.ofDigitChars_ten_toDigits

/-- The constant for a number has this number as its value. -/
theorem value_ofInt (type : SignedType) (number : Int) : (ofInt type number).value = number := by
  rw [value, magnitude_ofInt]
  by_cases hnegative : number < 0
  · rw [ofInt, if_pos (decide_eq_true hnegative)]
    omega
  · rw [ofInt, if_neg (by simpa using hnegative)]
    omega

/-- The constant for a number is written as the number, with the suffix of the type behind it. -/
theorem text_ofInt (type : SignedType) (number : Int) :
    (ofInt type number).text = toString number ++ String.ofList type.suffix := by
  apply String.toList_inj.1
  rw [text, String.toList_ofList, sign, String.toList_append, String.toList_ofList,
    Int.toString_eq_repr, Int.repr_eq_if]
  by_cases hnegative : number < 0
  · have habs : (-number).toNat = number.natAbs := by omega
    rw [ofInt, if_pos (decide_eq_true hnegative), if_neg (by omega), String.toList_append,
      Nat.toList_repr, habs]
    rfl
  · have habs : number.toNat = number.natAbs := by omega
    rw [ofInt, if_neg (by simpa using hnegative), if_pos (by omega), Nat.toList_repr, habs]
    rfl

/-- The text is that of one constant, which gives the number; it fits under the condition. -/
def IsReadAs (text : String) (number : Int) (fits : Prop) : Prop :=
  ∃ constant : IntegerConstant, (∀ other : IntegerConstant, other.text = text ↔ other = constant) ∧
    constant.value = number ∧ (constant.Fits ↔ fits)

/-- A number with a suffix is read as this number, and it fits the type exactly if its absolute
value does. -/
theorem isReadAs_toString (type : SignedType) (number : Int) :
    IsReadAs (toString number ++ String.ofList type.suffix) number
      (number.natAbs ≤ type.greatest) := by
  refine ⟨ofInt type number, fun other => ?_, value_ofInt type number, ?_⟩
  · rw [← text_ofInt]
    exact text_injective.eq_iff
  · rw [Fits, magnitude_ofInt]
    rfl

/-- It is enough to say in another way when the constant fits its type. -/
theorem IsReadAs.congr {text : String} {number : Int} {fits other : Prop}
    (h : IsReadAs text number fits) (hfits : fits ↔ other) : IsReadAs text number other := by
  obtain ⟨constant, hreading, hvalue, hiff⟩ := h
  exact ⟨constant, hreading, hvalue, hiff.trans hfits⟩

/-- A text whose reading does not fit is that of no constant that fits. -/
theorem IsReadAs.not_exists {text : String} {number : Int} {fits : Prop}
    (h : IsReadAs text number fits) (hfits : ¬fits) :
    ¬∃ constant : IntegerConstant, constant.text = text ∧ constant.value = number ∧
      constant.Fits := by
  rintro ⟨constant, htext, -, hconstant⟩
  obtain ⟨reading, hreading, -, hiff⟩ := h
  rw [(hreading constant).1 htext] at hconstant
  exact hfits (hiff.1 hconstant)

/-- No parenthesis stands in a number. -/
theorem parenthesis_notMem_toString (number : Int) : '(' ∉ (toString number).toList := by
  intro hmem
  -- The number is the front of a constant, and a constant has no parentheses.
  have htext : '(' ∈ (ofInt .long number).text.toList := by
    rw [text_ofInt, String.toList_append]
    exact List.mem_append_left _ hmem
  rw [text, String.toList_ofList, List.mem_append, List.mem_append] at htext
  rcases htext with (hsign | hdigit) | hsuffix
  · unfold sign at hsign
    split at hsign <;> simp at hsign
  · have hisDigit := (ofInt .long number).isDigit_of_mem '(' hdigit
    exact absurd hisDigit (by decide)
  · simp [ofInt, SignedType.suffix] at hsuffix

end IntegerConstant

namespace ConstantValue

open IntegerConstant (IsReadAs)

/-! ### Literals -/

/-- A text without parentheses takes the suffix. -/
theorem literal_of_notMem {value : ConstantValue} (h : '(' ∉ value.text.toList) :
    value.literal = value.text ++ value.suffix := by
  unfold literal
  split
  · next heq =>
    rw [heq] at h
    exact absurd List.mem_cons_self h
  · rfl

/-- The literal of a value that is written as a number is read as this number. -/
theorem isReadAs_literal {value : ConstantValue} {type : SignedType} {number : Int}
    (htext : value.text = toString number) (hsuffix : value.suffix = String.ofList type.suffix) :
    IsReadAs value.literal number (number.natAbs ≤ type.greatest) := by
  have hliteral : value.literal = toString number ++ String.ofList type.suffix := by
    rw [literal_of_notMem (htext ▸ IntegerConstant.parenthesis_notMem_toString number), htext,
      hsuffix]
  rw [hliteral]
  exact IntegerConstant.isReadAs_toString type number

/-- The literal of an `int` is read as its number, and it fits the type `long`, whose suffix it has,
exactly if the absolute value does. -/
theorem isReadAs_int (number : Int32) :
    IsReadAs (int number).literal number.toInt
      (number.toInt.natAbs ≤ SignedType.long.greatest) := isReadAs_literal rfl rfl

/-- The literal of a `long` is read as its number, and it fits the type `long long` exactly if the
absolute value does. -/
theorem isReadAs_long (number : Int64) :
    IsReadAs (long number).literal number.toInt
      (number.toInt.natAbs ≤ SignedType.longLong.greatest) := isReadAs_literal rfl rfl

/-- The literal of an integer is that of one constant, which gives the integer; its digits fit the
type of its suffix unless the integer is the least one of its width. -/
theorem literal_isReadAs (number : Int32) (wide : Int64) :
    IsReadAs (int number).literal number.toInt (number ≠ Int32.minValue) ∧
      IsReadAs (long wide).literal wide.toInt (wide ≠ Int64.minValue) := by
  constructor
  · refine (isReadAs_int number).congr ?_
    have hlower := Int32.le_toInt number
    have hupper := Int32.toInt_lt number
    have hgreatest : SignedType.long.greatest = 2 ^ 31 - 1 := rfl
    rw [Ne, ← Int32.toInt_inj, Int32.toInt_minValue, hgreatest]
    omega
  · refine (isReadAs_long wide).congr ?_
    have hlower := Int64.le_toInt wide
    have hupper := Int64.toInt_lt wide
    have hgreatest : SignedType.longLong.greatest = 2 ^ 63 - 1 := rfl
    rw [Ne, ← Int64.toInt_inj, Int64.toInt_minValue, hgreatest]
    omega

/-- The digits of the least integers of both widths fit no type that a suffix names. -/
theorem exists_literal_too_great :
    (¬∃ constant : IntegerConstant, constant.text = (int (-2147483648)).literal ∧
        constant.value = -2147483648 ∧ constant.Fits) ∧
      ¬∃ constant : IntegerConstant, constant.text = (long (-9223372036854775808)).literal ∧
        constant.value = -9223372036854775808 ∧ constant.Fits :=
  ⟨(isReadAs_int (-2147483648)).not_exists (by decide),
    (isReadAs_long (-9223372036854775808)).not_exists (by decide)⟩

end ConstantValue

end NativeHeaders
