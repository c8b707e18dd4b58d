import Mathlib.Tactic.SplitIfs

/-! # Positions in texts

A position counts the bytes in front of it. `Leaves text position chars` says that a position lies
between two characters of a text, and which ones stand behind it. A byte below 128 is written for a
single character only (`toUInt8_mem_utf8EncodeChar`), so a search for such a byte ends between two
characters again (`takeWhile_bytes`). -/

namespace NativeHeaders.Text

/-! ### Bytes of characters -/

/-- An ASCII character is one byte. -/
theorem utf8EncodeChar_of_lt {c : Char} (h : c.toNat < 128) :
    String.utf8EncodeChar c = [c.toUInt8] := by
  have hle : c.val.toNat ≤ 127 := Nat.le_of_lt_succ h
  unfold String.utf8EncodeChar
  dsimp only
  rw [if_pos hle]
  rfl

/-- Characters from 128 on are written without the bytes of those below. -/
theorem le_of_mem_utf8EncodeChar {c : Char} (h : 128 ≤ c.toNat) {byte : UInt8}
    (hbyte : byte ∈ String.utf8EncodeChar c) : 128 ≤ byte.toNat := by
  have hnumber : c.val.toNat = c.toNat := rfl
  unfold String.utf8EncodeChar at hbyte
  dsimp only at hbyte
  rw [hnumber] at hbyte
  -- Every byte of the three longer forms is a remainder with 128 or more added to it.
  split_ifs at hbyte <;>
    simp only [List.mem_cons, List.not_mem_nil, or_false, ← UInt8.toNat_inj, UInt8.toNat_ofNat']
      at hbyte <;>
    omega

/-- An ASCII character and its byte are the same number. -/
theorem toNat_toUInt8 {c : Char} (h : c.toNat < 128) : c.toUInt8.toNat = c.toNat := by
  show c.toNat % 256 = c.toNat
  omega

/-- A byte below 128 is written for its own character only. -/
theorem toUInt8_mem_utf8EncodeChar {letter : Char} (hletter : letter.toNat < 128) (c : Char) :
    letter.toUInt8 ∈ String.utf8EncodeChar c ↔ c = letter := by
  constructor
  · intro hmem
    by_cases hc : c.toNat < 128
    · rw [utf8EncodeChar_of_lt hc, List.mem_singleton] at hmem
      have hnumber := congrArg UInt8.toNat hmem
      rw [toNat_toUInt8 hletter, toNat_toUInt8 hc] at hnumber
      exact Char.toNat_inj.mp hnumber.symm
    · have hle := le_of_mem_utf8EncodeChar (Nat.not_lt.mp hc) hmem
      rw [toNat_toUInt8 hletter] at hle
      omega
  · rintro rfl
    rw [utf8EncodeChar_of_lt hletter]
    exact List.mem_singleton_self _

/-- The first byte of a character tells an ASCII character from all others. -/
theorem eq_toUInt8_iff {letter c : Char} (hletter : letter.toNat < 128) {byte : UInt8}
    {more : List UInt8} (hbytes : String.utf8EncodeChar c = byte :: more) :
    byte = letter.toUInt8 ↔ c = letter := by
  rw [← toUInt8_mem_utf8EncodeChar hletter c]
  constructor
  · rintro rfl
    rw [hbytes]
    exact List.mem_cons_self
  · intro hmem
    have hc := (toUInt8_mem_utf8EncodeChar hletter c).mp hmem
    rw [hc, utf8EncodeChar_of_lt hletter] at hbytes
    exact (List.cons.inj hbytes).1.symm

/-- Bytes in front of one below 128 are those of the characters in front of its character. -/
theorem takeWhile_bytes {letter : Char} (hletter : letter.toNat < 128) (chars : List Char) :
    (chars.flatMap String.utf8EncodeChar).takeWhile (· ≠ letter.toUInt8) =
      (chars.takeWhile (· ≠ letter)).flatMap String.utf8EncodeChar := by
  induction chars with
  | nil => rfl
  | cons c chars ih =>
    rw [List.flatMap_cons]
    by_cases hc : c = letter
    · subst hc
      rw [utf8EncodeChar_of_lt hletter]
      simp
    · have hbytes : ∀ byte ∈ String.utf8EncodeChar c, decide (byte ≠ letter.toUInt8) = true := by
        intro byte hbyte
        refine decide_eq_true fun heq => hc ?_
        exact (toUInt8_mem_utf8EncodeChar hletter c).mp (heq ▸ hbyte)
      rw [List.takeWhile_append_of_pos hbytes, ih,
        List.takeWhile_cons_of_pos (by simpa using hc), List.flatMap_cons]

/-! ### Positions between characters -/

/-- The bytes of a text in UTF-8. -/
def utf8 (text : String) : List UInt8 := text.toUTF8.data.toList

/-- A text has as many bytes as its size says. -/
theorem length_utf8 (text : String) : (utf8 text).length = text.utf8ByteSize := rfl

/-- The bytes of two texts stand one behind the other. -/
theorem utf8_append (front back : String) : utf8 (front ++ back) = utf8 front ++ utf8 back := by
  simp [utf8]

/-- The bytes of a text are those of its characters. -/
theorem utf8_ofList (chars : List Char) :
    utf8 (String.ofList chars) = chars.flatMap String.utf8EncodeChar := by
  simp [utf8, List.utf8Encode]

/-- The position lies in front of a character or at the end, and the characters are those behind it.
-/
def Leaves (text : String) (position : Nat) (chars : List Char) : Prop :=
  ∃ front, text = front ++ String.ofList chars ∧ position = front.utf8ByteSize

/-- In front of the text all its characters are left. -/
theorem leaves_zero (text : String) : Leaves text 0 text.toList := ⟨"", by simp, rfl⟩

namespace Leaves

variable {text : String} {position : Nat} {chars : List Char}

/-- The bytes behind a position are those of the characters that are left. -/
theorem drop_utf8 (h : Leaves text position chars) :
    (utf8 text).drop position = chars.flatMap String.utf8EncodeChar := by
  obtain ⟨front, rfl, rfl⟩ := h
  rw [utf8_append, ← length_utf8, List.drop_left, utf8_ofList]

/-- Behind some of the characters stand the other ones. -/
theorem skip {taken rest : List Char} (h : Leaves text position (taken ++ rest)) :
    Leaves text (position + (taken.flatMap String.utf8EncodeChar).length) rest := by
  obtain ⟨front, rfl, rfl⟩ := h
  refine ⟨front ++ String.ofList taken, ?_, ?_⟩
  · rw [String.ofList_append, String.append_assoc]
  · rw [String.utf8ByteSize_append, ← utf8_ofList, length_utf8]

/-- Behind an ASCII character the others are left. -/
theorem succ {c : Char} (h : Leaves text position (c :: chars)) (hc : c.toNat < 128) :
    Leaves text (position + 1) chars := by
  have hcons : Leaves text position ([c] ++ chars) := h
  have hskip := hcons.skip
  rwa [List.flatMap_singleton, utf8EncodeChar_of_lt hc, List.length_singleton] at hskip

/-- In front of a character stands its first byte. -/
theorem exists_byte {c : Char} (h : Leaves text position (c :: chars)) :
    ∃ byte more, (utf8 text)[position]? = some byte ∧ String.utf8EncodeChar c = byte :: more := by
  have hne : String.utf8EncodeChar c ≠ [] := by simp
  obtain ⟨byte, more, hbytes⟩ := List.exists_cons_of_ne_nil hne
  refine ⟨byte, more, ?_, hbytes⟩
  rw [← List.head?_drop, h.drop_utf8, List.flatMap_cons, hbytes]
  rfl

/-- A character that is left stands within the text. -/
theorem lt_length {c : Char} (h : Leaves text position (c :: chars)) :
    position < (utf8 text).length := by
  obtain ⟨byte, more, hbyte, -⟩ := h.exists_byte
  exact (List.getElem?_eq_some_iff.mp hbyte).1

/-- Where nothing is left, the text ends. -/
theorem length_le (h : Leaves text position []) : (utf8 text).length ≤ position :=
  List.drop_eq_nil_iff.mp h.drop_utf8

/-- Between two positions stand the characters that are left at the first one only. -/
theorem between {stop : Nat} {taken rest : List Char} (h : Leaves text position (taken ++ rest))
    (hstop : Leaves text stop rest) :
    ∃ front, text = front ++ String.ofList taken ++ String.ofList rest ∧
      position = front.utf8ByteSize ∧ stop = (front ++ String.ofList taken).utf8ByteSize := by
  obtain ⟨front, rfl, rfl⟩ := h
  obtain ⟨before, htext, rfl⟩ := hstop
  have hbefore : before = front ++ String.ofList taken := by
    have hchars := congrArg String.toList htext
    simp only [String.toList_append, String.toList_ofList, ← List.append_assoc] at hchars
    apply String.toList_inj.mp
    simpa using (List.append_cancel_right hchars).symm
  refine ⟨front, ?_, rfl, by rw [hbefore]⟩
  rw [String.ofList_append, String.append_assoc]

end Leaves

end NativeHeaders.Text
