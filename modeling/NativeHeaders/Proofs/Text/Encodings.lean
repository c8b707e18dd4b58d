import NativeHeaders.Proofs.Text.ModifiedUtf8

/-! # Texts in both encodings

A text is read back from its bytes in modified UTF-8 and from those in plain UTF-8. Bytes in plain
UTF-8 that are read as modified UTF-8 nevertheless give the same text, unless a character in them is
U+0000 or takes four bytes; then they give none (`decodeModified?_plain`). -/

namespace NativeHeaders.Text.ModifiedUtf8

/-! ### Characters of a single unit -/

/-- The character is written alike in both encodings. -/
def IsWrittenAlike (c : Char) : Prop := 0 < c.toNat ∧ c.toNat < 0x10000

instance (c : Char) : Decidable (IsWrittenAlike c) :=
  inferInstanceAs (Decidable (0 < c.toNat ∧ c.toNat < 0x10000))

/-- Four bytes are taken by the characters above U+FFFF. -/
theorem length_utf8EncodeChar_eq_four (c : Char) :
    (String.utf8EncodeChar c).length = 4 ↔ 0x10000 ≤ c.toNat := by
  have hnumber : c.val.toNat = c.toNat := rfl
  unfold String.utf8EncodeChar
  dsimp only
  rw [hnumber]
  split_ifs <;> simp <;> omega

/-- A byte 0 is written for the character U+0000, and only for it. -/
theorem zero_mem_utf8EncodeChar (c : Char) : 0 ∈ String.utf8EncodeChar c ↔ c.toNat = 0 := by
  have hnumber : c.val.toNat = c.toNat := rfl
  have hzero : ∀ number, 0 = UInt8.ofNat number ↔ number % 256 = 0 := by
    intro number
    rw [← UInt8.toNat_inj, UInt8.toNat_ofNat']
    exact eq_comm
  unfold String.utf8EncodeChar
  dsimp only
  rw [hnumber]
  split_ifs <;> simp only [List.mem_cons, List.not_mem_nil, hzero, or_false] <;> omega

/-- A character is written differently exactly if its UTF-8 has a zero byte or four bytes. -/
theorem not_isWrittenAlike_iff (c : Char) :
    ¬IsWrittenAlike c ↔
      0 ∈ String.utf8EncodeChar c ∨ (String.utf8EncodeChar c).length = 4 := by
  rw [zero_mem_utf8EncodeChar, length_utf8EncodeChar_eq_four, IsWrittenAlike]
  omega

/-! ### Texts -/

/-- The bytes of characters in plain UTF-8 are read as the units of the characters, if these are
written alike, and otherwise not at all. -/
theorem decodeUnits?_plain (chars : List Char) :
    decodeUnits? (chars.flatMap String.utf8EncodeChar) =
      if chars.all (decide <| IsWrittenAlike ·) then some (Text.units chars) else none := by
  induction chars with
  | nil => simp [decodeUnits?]
  | cons c chars ih =>
    rw [List.flatMap_cons, decodeUnits?_utf8EncodeChar_append, ih, Text.units_cons]
    simp only [List.all_cons, Bool.and_eq_true, decide_eq_true_eq, ← IsWrittenAlike.eq_def]
    by_cases hc : IsWrittenAlike c
    · simp only [hc, true_and, if_true]
      split <;> rfl
    · simp only [hc, false_and, if_false]

/-- As modified UTF-8, plain UTF-8 is read as its text exactly if all its characters are written
alike. -/
theorem decodeModified?_plain (text : String) :
    decodeModified? (text.toList.flatMap String.utf8EncodeChar) =
      if text.toList.all (decide <| IsWrittenAlike ·) then some text else none := by
  rw [decodeModified?, decodeUnits?_plain]
  split
  · simp [charsOfUnits?_units]
  · rfl

/-- As plain UTF-8, every text is read back. -/
theorem decodePlain?_toUTF8 (text : String) :
    decodePlain? text.toUTF8.data.toList = some text := by
  have hbytes : (⟨text.toUTF8.data.toList.toArray⟩ : ByteArray) = text.toByteArray := rfl
  rw [decodePlain?, hbytes, String.fromUTF8?, dif_pos text.isValidUTF8]
  rfl

/-- **Texts of class files are read back from both encodings.** The bytes of a text in modified
UTF-8 and those in plain UTF-8 are both read as the text. Of bytes that are plain UTF-8, reading
modified UTF-8 gives the same text or fails, and it fails exactly if there is a byte 0 among them or
a character takes four of them. -/
theorem decode?_inverts_both :
    (∀ text : String, decode? (encode text) = some text ∧
        decode? text.toUTF8.data.toList = some text) ∧
      ∀ (bytes : List UInt8) (text : String), decodePlain? bytes = some text →
        (decodeModified? bytes = some text ∨ decodeModified? bytes = none) ∧
          (decodeModified? bytes = none ↔
            0 ∈ bytes ∨ ∃ c ∈ text.toList, (String.utf8EncodeChar c).length = 4) := by
  constructor
  · intro text
    constructor
    · rw [encode, decode?_encodeUnits, charsOfUnits?_units, Option.map_some, String.ofList_toList]
    · rw [decode?, decodePlain?_toUTF8]
  · intro bytes text hplain
    obtain rfl := decodePlain?_eq_some.mp hplain
    rw [decodeModified?_plain]
    constructor
    · split
      · exact .inl rfl
      · exact .inr rfl
    · rw [ite_eq_right_iff, List.mem_flatMap, ← exists_or]
      simp only [List.all_eq_true, decide_eq_true_eq, reduceCtorEq, imp_false,
        Classical.not_forall, exists_prop, not_isWrittenAlike_iff, ← and_or_left]

/-- U+0000 and a character above U+FFFF, in modified and in plain UTF-8. -/
example : decode? [0xC0, 0x80, 0xED, 0xA0, 0xBD, 0xED, 0xB8, 0x80] = some "\x00😀" ∧
    decode? [0x00, 0xF0, 0x9F, 0x98, 0x80] = some "\x00😀" := by
  decide +kernel

end NativeHeaders.Text.ModifiedUtf8
