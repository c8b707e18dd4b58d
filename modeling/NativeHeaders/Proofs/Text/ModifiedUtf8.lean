import Mathlib.Algebra.Group.Nat.Defs
import Mathlib.Tactic.SplitIfs
import NativeHeaders.Proofs.Text.Utf16
import NativeHeaders.Text.ModifiedUtf8

/-! # Reading back modified UTF-8

Modified UTF-8 can hold any code units, also surrogates that stand alone, and its bytes are read
back as the units they were written for. A character is written like in plain UTF-8 unless it is
U+0000 or above U+FFFF. So units are read as a text exactly if their surrogates are paired, no
matter that plain UTF-8 is tried first (`decode?_encodeUnits`). -/

namespace NativeHeaders.Text.ModifiedUtf8

/-! ### Bits -/

/-- A number behind the mark of the first byte of two. -/
theorem firstOfTwo_or : ∀ m < 32, (0xC0 : UInt8) ||| UInt8.ofNat m = UInt8.ofNat (m + 192) := by
  decide

/-- A number behind the mark of the first byte of three. -/
theorem firstOfThree_or : ∀ m < 16, (0xE0 : UInt8) ||| UInt8.ofNat m = UInt8.ofNat (m + 224) := by
  decide

/-- A number behind the mark of a byte that continues a group. -/
theorem continuation_or : ∀ m < 64, (0x80 : UInt8) ||| UInt8.ofNat m = UInt8.ofNat (m + 128) := by
  decide

/-- The first of two bytes holds five bits of the code unit. -/
theorem toUInt16_firstOfTwo :
    ∀ m < 32, (UInt8.ofNat (m + 192) &&& 0x1F).toUInt16 = UInt16.ofNat m := by
  decide

/-- The first of three bytes holds four bits of the code unit. -/
theorem toUInt16_firstOfThree :
    ∀ m < 16, (UInt8.ofNat (m + 224) &&& 0x0F).toUInt16 = UInt16.ofNat m := by
  decide

/-- A byte that continues a group holds six bits of the code unit. -/
theorem continuation?_ofNat :
    ∀ m < 64, continuation? (UInt8.ofNat (m + 128)) = some (UInt16.ofNat m) := by
  decide

/-- Shifting a code unit to the right is dividing it by a power of two. -/
theorem toUInt8_shiftRight (unit : UInt16) {shift : UInt16} (h : shift.toNat < 16) :
    (unit >>> shift).toUInt8 = UInt8.ofNat (unit.toNat / 2 ^ shift.toNat) := by
  apply UInt8.toNat_inj.mp
  rw [UInt16.toNat_toUInt8, UInt16.toNat_shiftRight, Nat.mod_eq_of_lt h,
    Nat.shiftRight_eq_div_pow, UInt8.toNat_ofNat']

/-- The six lowest bits of a code unit are its remainder by 64. -/
theorem toUInt8_and_sixBits (unit : UInt16) :
    (unit &&& 0x3F).toUInt8 = UInt8.ofNat (unit.toNat % 64) := by
  apply UInt8.toNat_inj.mp
  rw [UInt16.toNat_toUInt8, UInt16.toNat_and, UInt8.toNat_ofNat']
  exact congrArg (· % 2 ^ 8) (Nat.and_two_pow_sub_one_eq_mod unit.toNat 6)

/-- Numbers in bits of their own add up. -/
theorem shiftLeft_or {high low : Nat} {shift : UInt16} (hshift : shift.toNat < 16)
    (hlow : low < 2 ^ shift.toNat) (h : high * 2 ^ shift.toNat + low < 2 ^ 16) :
    UInt16.ofNat high <<< shift ||| UInt16.ofNat low =
      UInt16.ofNat (high * 2 ^ shift.toNat + low) := by
  have hle : high ≤ high * 2 ^ shift.toNat := Nat.le_mul_of_pos_right _ (Nat.two_pow_pos _)
  apply UInt16.toNat_inj.mp
  rw [UInt16.toNat_or, UInt16.toNat_shiftLeft, Nat.mod_eq_of_lt hshift,
    UInt16.toNat_ofNat_of_lt' (by simp only [UInt16.size]; omega),
    UInt16.toNat_ofNat_of_lt' (by simp only [UInt16.size]; omega),
    UInt16.toNat_ofNat_of_lt' h, Nat.mod_eq_of_lt (by rw [Nat.shiftLeft_eq]; omega),
    ← Nat.shiftLeft_add_eq_or_of_lt hlow, Nat.shiftLeft_eq]

/-! ### Groups of bytes -/

section Writing

variable {unit : UInt16}

/-- A code unit of up to seven bits is written as one byte, unless it is zero. -/
theorem encodeUnit_one (hpos : 0 < unit.toNat) (hle : unit.toNat ≤ 0x7F) :
    encodeUnit unit = [UInt8.ofNat unit.toNat] := by
  have hrange : 0x01 ≤ unit ∧ unit ≤ 0x7F := by
    simp only [UInt16.le_iff_toNat_le]
    exact ⟨hpos, hle⟩
  rw [encodeUnit, if_pos hrange]
  rfl

/-- Zero and the code units of up to eleven bits are written as two bytes. -/
theorem encodeUnit_two (hone : unit.toNat = 0 ∨ 0x7F < unit.toNat) (hle : unit.toNat ≤ 0x7FF) :
    encodeUnit unit =
      [UInt8.ofNat (unit.toNat / 64 + 192), UInt8.ofNat (unit.toNat % 64 + 128)] := by
  have hrange : ¬(0x01 ≤ unit ∧ unit ≤ 0x7F) := by
    simp only [UInt16.le_iff_toNat_le]
    show ¬(1 ≤ unit.toNat ∧ unit.toNat ≤ 0x7F)
    omega
  have htwo : unit ≤ 0x7FF := UInt16.le_iff_toNat_le.mpr hle
  rw [encodeUnit, if_neg hrange, if_pos htwo, toUInt8_shiftRight unit (by decide),
    toUInt8_and_sixBits, continuation_or _ (Nat.mod_lt _ (by decide)),
    firstOfTwo_or _ (by change unit.toNat / 64 < 32; omega)]
  rfl

/-- All others are written as three bytes. -/
theorem encodeUnit_three (hlt : 0x7FF < unit.toNat) :
    encodeUnit unit =
      [UInt8.ofNat (unit.toNat / 4096 + 224), UInt8.ofNat (unit.toNat / 64 % 64 + 128),
        UInt8.ofNat (unit.toNat % 64 + 128)] := by
  have hunit := unit.toNat_lt
  have hrange : ¬(0x01 ≤ unit ∧ unit ≤ 0x7F) := by
    simp only [UInt16.le_iff_toNat_le]
    show ¬(1 ≤ unit.toNat ∧ unit.toNat ≤ 0x7F)
    omega
  have hthree : ¬unit ≤ 0x7FF := by
    rw [UInt16.le_iff_toNat_le]
    exact Nat.not_le.mpr hlt
  have hmiddle : (unit >>> 6).toNat % 64 = unit.toNat / 64 % 64 := by
    rw [UInt16.toNat_shiftRight, Nat.shiftRight_eq_div_pow]
    rfl
  rw [encodeUnit, if_neg hrange, if_neg hthree, toUInt8_shiftRight unit (by decide),
    toUInt8_and_sixBits, toUInt8_and_sixBits, hmiddle,
    continuation_or _ (Nat.mod_lt _ (by decide)), continuation_or _ (Nat.mod_lt _ (by decide)),
    firstOfThree_or _ (by change unit.toNat / 4096 < 16; omega)]
  rfl

end Writing

section Reading

variable {rest : List UInt8}

/-- A byte below 128 is read as the code unit that it is, unless it is zero. -/
theorem decodeUnits?_one {number : Nat} (hpos : 0 < number) (hle : number ≤ 0x7F) :
    decodeUnits? (UInt8.ofNat number :: rest) =
      (decodeUnits? rest).map (UInt16.ofNat number :: ·) := by
  have hnumber : (UInt8.ofNat number).toNat = number := by
    rw [UInt8.toNat_ofNat']
    omega
  have hrange : 0x01 ≤ UInt8.ofNat number ∧ UInt8.ofNat number ≤ 0x7F := by
    simp only [UInt8.le_iff_toNat_le, hnumber]
    exact ⟨hpos, hle⟩
  have hunit : (UInt8.ofNat number).toUInt16 = UInt16.ofNat number := by
    apply UInt16.toNat_inj.mp
    rw [UInt8.toNat_toUInt16, hnumber, UInt16.toNat_ofNat']
    omega
  rw [decodeUnits?.eq_def]
  simp only [if_pos hrange, hunit]

/-- A group of two bytes is read as one code unit. -/
theorem decodeUnits?_two {high low : Nat} (hhigh : high < 32) (hlow : low < 64) :
    decodeUnits? (UInt8.ofNat (high + 192) :: UInt8.ofNat (low + 128) :: rest) =
      (decodeUnits? rest).map (UInt16.ofNat (high * 64 + low) :: ·) := by
  have hfirst : (UInt8.ofNat (high + 192)).toNat = high + 192 := by
    rw [UInt8.toNat_ofNat']
    omega
  have hone : ¬(0x01 ≤ UInt8.ofNat (high + 192) ∧ UInt8.ofNat (high + 192) ≤ 0x7F) := by
    simp only [UInt8.le_iff_toNat_le, hfirst]
    show ¬(1 ≤ high + 192 ∧ high + 192 ≤ 0x7F)
    omega
  have htwo : 0xC0 ≤ UInt8.ofNat (high + 192) ∧ UInt8.ofNat (high + 192) ≤ 0xDF := by
    simp only [UInt8.le_iff_toNat_le, hfirst]
    show 0xC0 ≤ high + 192 ∧ high + 192 ≤ 0xDF
    omega
  have hunit : UInt16.ofNat high <<< 6 ||| UInt16.ofNat low = UInt16.ofNat (high * 64 + low) :=
    shiftLeft_or (by decide) hlow (by change high * 64 + low < 2 ^ 16; omega)
  rw [decodeUnits?.eq_def]
  simp only [if_neg hone, if_pos htwo, continuation?_ofNat low hlow, toUInt16_firstOfTwo high hhigh,
    Option.bind_eq_bind, Option.bind_some, hunit]
  cases decodeUnits? rest <;> rfl

/-- A group of three bytes is read as one code unit. -/
theorem decodeUnits?_three {top middle low : Nat} (htop : top < 16) (hmiddle : middle < 64)
    (hlow : low < 64) :
    decodeUnits?
        (UInt8.ofNat (top + 224) :: UInt8.ofNat (middle + 128) :: UInt8.ofNat (low + 128) :: rest) =
      (decodeUnits? rest).map (UInt16.ofNat (top * 4096 + middle * 64 + low) :: ·) := by
  have hfirst : (UInt8.ofNat (top + 224)).toNat = top + 224 := by
    rw [UInt8.toNat_ofNat']
    omega
  have hone : ¬(0x01 ≤ UInt8.ofNat (top + 224) ∧ UInt8.ofNat (top + 224) ≤ 0x7F) := by
    simp only [UInt8.le_iff_toNat_le, hfirst]
    show ¬(1 ≤ top + 224 ∧ top + 224 ≤ 0x7F)
    omega
  have htwo : ¬(0xC0 ≤ UInt8.ofNat (top + 224) ∧ UInt8.ofNat (top + 224) ≤ 0xDF) := by
    simp only [UInt8.le_iff_toNat_le, hfirst]
    show ¬(0xC0 ≤ top + 224 ∧ top + 224 ≤ 0xDF)
    omega
  have hthree : 0xE0 ≤ UInt8.ofNat (top + 224) ∧ UInt8.ofNat (top + 224) ≤ 0xEF := by
    simp only [UInt8.le_iff_toNat_le, hfirst]
    show 0xE0 ≤ top + 224 ∧ top + 224 ≤ 0xEF
    omega
  have hlower : UInt16.ofNat middle <<< 6 ||| UInt16.ofNat low = UInt16.ofNat (middle * 64 + low) :=
    shiftLeft_or (by decide) hlow (by change middle * 64 + low < 2 ^ 16; omega)
  have hunit : UInt16.ofNat top <<< 12 ||| UInt16.ofNat (middle * 64 + low) =
      UInt16.ofNat (top * 4096 + (middle * 64 + low)) :=
    shiftLeft_or (by decide) (by change middle * 64 + low < 4096; omega)
      (by change top * 4096 + (middle * 64 + low) < 2 ^ 16; omega)
  rw [decodeUnits?.eq_def]
  simp only [if_neg hone, if_neg htwo, if_pos hthree, continuation?_ofNat low hlow,
    continuation?_ofNat middle hmiddle, toUInt16_firstOfThree top htop, Option.bind_eq_bind,
    Option.bind_some, UInt16.or_assoc, hlower, hunit, Nat.add_assoc]
  cases decodeUnits? rest <;> rfl

/-- No group starts with the byte 0, nor with a byte behind those of groups of three. -/
theorem decodeUnits?_eq_none {first : UInt8} (h : first.toNat = 0 ∨ 0xEF < first.toNat) :
    decodeUnits? (first :: rest) = none := by
  have hone : ¬(0x01 ≤ first ∧ first ≤ 0x7F) := by
    simp only [UInt8.le_iff_toNat_le]
    show ¬(1 ≤ first.toNat ∧ first.toNat ≤ 0x7F)
    omega
  have htwo : ¬(0xC0 ≤ first ∧ first ≤ 0xDF) := by
    simp only [UInt8.le_iff_toNat_le]
    show ¬(0xC0 ≤ first.toNat ∧ first.toNat ≤ 0xDF)
    omega
  have hthree : ¬(0xE0 ≤ first ∧ first ≤ 0xEF) := by
    simp only [UInt8.le_iff_toNat_le]
    show ¬(0xE0 ≤ first.toNat ∧ first.toNat ≤ 0xEF)
    omega
  rw [decodeUnits?.eq_def]
  simp only [if_neg hone, if_neg htwo, if_neg hthree]

end Reading

/-! ### Units -/

/-- A code unit is read back from its bytes. -/
theorem decodeUnits?_encodeUnit_append (unit : UInt16) (rest : List UInt8) :
    decodeUnits? (encodeUnit unit ++ rest) = (decodeUnits? rest).map (unit :: ·) := by
  have hunit := unit.toNat_lt
  by_cases hone : 0 < unit.toNat ∧ unit.toNat ≤ 0x7F
  · rw [encodeUnit_one hone.1 hone.2, List.singleton_append, decodeUnits?_one hone.1 hone.2,
      UInt16.ofNat_toNat]
  · by_cases htwo : unit.toNat ≤ 0x7FF
    · rw [encodeUnit_two (by omega) htwo]
      simp only [List.cons_append, List.nil_append]
      rw [decodeUnits?_two (by omega) (Nat.mod_lt _ (by decide)), Nat.div_add_mod',
        UInt16.ofNat_toNat]
    · have hsum : unit.toNat / 4096 * 4096 + unit.toNat / 64 % 64 * 64 + unit.toNat % 64 =
          unit.toNat := by omega
      rw [encodeUnit_three (by omega)]
      simp only [List.cons_append, List.nil_append]
      rw [decodeUnits?_three (by omega) (Nat.mod_lt _ (by decide)) (Nat.mod_lt _ (by decide)), hsum,
        UInt16.ofNat_toNat]

/-- Code units are read back, whether they are those of a text or not. -/
theorem decodeUnits?_encodeUnits (units : List UInt16) :
    decodeUnits? (encodeUnits units) = some units := by
  induction units with
  | nil => rfl
  | cons unit units ih =>
    rw [encodeUnits, List.flatMap_cons, ← encodeUnits, decodeUnits?_encodeUnit_append, ih,
      Option.map_some]

/-- A code unit takes at most three bytes. -/
theorem length_encodeUnits_le (units : List UInt16) :
    (encodeUnits units).length ≤ 3 * units.length := by
  induction units with
  | nil => simp [encodeUnits]
  | cons unit units ih =>
    have hunit : (encodeUnit unit).length ≤ 3 := by
      unfold encodeUnit
      split_ifs <;> simp
    rw [encodeUnits, List.flatMap_cons, ← encodeUnits, List.length_append, List.length_cons]
    omega

/-! ### Plain UTF-8 -/

/-- Characters with a single unit other than 0 are written like in plain UTF-8. -/
theorem encodeUnit_ofNat_toNat {c : Char} (hpos : 0 < c.toNat) (hlt : c.toNat < 0x10000) :
    encodeUnit (UInt16.ofNat c.toNat) = String.utf8EncodeChar c := by
  have hunit : (UInt16.ofNat c.toNat).toNat = c.toNat := UInt16.toNat_ofNat_of_lt' hlt
  have hnumber : c.val.toNat = c.toNat := rfl
  unfold String.utf8EncodeChar
  dsimp only
  rw [hnumber]
  split_ifs with hone htwo hthree
  · rw [encodeUnit_one (by omega) (by omega), hunit]
  · rw [encodeUnit_two (by omega) (by omega), hunit, Nat.mod_eq_of_lt (by omega : _ / 64 < 32)]
  · rw [encodeUnit_three (by omega), hunit, Nat.mod_eq_of_lt (by omega : _ / 4096 < 16)]
  · omega

/-- A character with a single unit other than 0 is read as in plain UTF-8, and the bytes of any
other one are no group. -/
theorem decodeUnits?_utf8EncodeChar_append (c : Char) (rest : List UInt8) :
    decodeUnits? (String.utf8EncodeChar c ++ rest) =
      if 0 < c.toNat ∧ c.toNat < 0x10000 then (decodeUnits? rest).map (charUnits c ++ ·)
      else none := by
  split
  · next h =>
    rw [← encodeUnit_ofNat_toNat h.1 h.2, decodeUnits?_encodeUnit_append, charUnits_of_lt h.2]
    rfl
  · next h =>
    have hnumber : c.val.toNat = c.toNat := rfl
    unfold String.utf8EncodeChar
    dsimp only
    rw [hnumber]
    split_ifs with hone
    · exact decodeUnits?_eq_none (.inl (by rw [UInt8.toNat_ofNat']; omega))
    · omega
    · omega
    · exact decodeUnits?_eq_none (.inr (by rw [UInt8.toNat_ofNat']; omega))

/-- What is read of the bytes of a text in plain UTF-8 are the units of the text. -/
theorem eq_units_of_decodeUnits? {chars : List Char} {units : List UInt16}
    (h : decodeUnits? (chars.flatMap String.utf8EncodeChar) = some units) :
    units = Text.units chars := by
  induction chars generalizing units with
  | nil => exact (Option.some.inj h).symm
  | cons c chars ih =>
    rw [List.flatMap_cons, decodeUnits?_utf8EncodeChar_append] at h
    split at h
    · obtain ⟨others, hothers, rfl⟩ := Option.map_eq_some_iff.mp h
      rw [Text.units_cons, ih hothers]
    · cases h

/-- Bytes are read as a text in plain UTF-8 if they are those of its characters. -/
theorem decodePlain?_eq_some {bytes : List UInt8} {text : String} :
    decodePlain? bytes = some text ↔ bytes = text.toList.flatMap String.utf8EncodeChar := by
  have hencode : bytes = text.toList.flatMap String.utf8EncodeChar ↔
      (⟨bytes.toArray⟩ : ByteArray) = text.toByteArray := by
    rw [← String.utf8Encode_toList, List.utf8Encode, ByteArray.ext_iff, List.data_toByteArray,
      List.toArray_eq_iff]
  rw [hencode, decodePlain?, String.fromUTF8?]
  constructor
  · intro h
    split at h
    · cases h
      rfl
    · cases h
  · intro h
    rw [h, dif_pos text.isValidUTF8]
    rfl

/-! ### Texts -/

/-- **Units are read as the text that they are the units of, if their surrogates are paired.** -/
theorem decode?_encodeUnits (units : List UInt16) :
    decode? (encodeUnits units) = (charsOfUnits? units).map String.ofList := by
  have hmodified : decodeModified? (encodeUnits units) =
      (charsOfUnits? units).map String.ofList := by
    rw [decodeModified?, decodeUnits?_encodeUnits]
    cases h : charsOfUnits? units <;> simp [h]
  rw [decode?]
  split
  · next text hplain =>
    -- Plain UTF-8 gives what modified UTF-8 gives, because it was read as the same units.
    have hunits := decodeUnits?_encodeUnits units
    rw [decodePlain?_eq_some.mp hplain] at hunits
    rw [eq_units_of_decodeUnits? hunits, charsOfUnits?_units, Option.map_some, String.ofList_toList]
  · exact hmodified

end NativeHeaders.Text.ModifiedUtf8
