/-! # Texts from bytes that may be no UTF-8

Bytes that are UTF-8 stand for their text. Of other bytes, `lossyText` keeps the characters that are encoded
correctly, and writes U+FFFD for each longest piece that starts a character and does not finish it, and for
each byte that starts none. -/

namespace NativeHeaders.Text

/-- The character that stands for bytes that encode none. -/
def replacementChar : Char := '\uFFFD'

/-- What the bytes after a first byte may be: the least and the greatest value of each. No byte follows a byte
that is a character by itself; none also follows one that starts no character. -/
def followers (first : UInt8) : List (UInt8 × UInt8) :=
  if first < 0xC2 then []
  else if first < 0xE0 then [(0x80, 0xBF)]
  else if first = 0xE0 then [(0xA0, 0xBF), (0x80, 0xBF)]
  else if first = 0xED then [(0x80, 0x9F), (0x80, 0xBF)]
  else if first < 0xF0 then [(0x80, 0xBF), (0x80, 0xBF)]
  else if first = 0xF0 then [(0x90, 0xBF), (0x80, 0xBF), (0x80, 0xBF)]
  else if first < 0xF4 then [(0x80, 0xBF), (0x80, 0xBF), (0x80, 0xBF)]
  else if first = 0xF4 then [(0x80, 0x8F), (0x80, 0xBF), (0x80, 0xBF)]
  else []

/-- The bytes at the front that stay in the ranges, one after the other, and the bytes behind them. -/
def takeFollowers : List (UInt8 × UInt8) → List UInt8 → List UInt8 × List UInt8
  | (least, greatest) :: ranges, byte :: bytes =>
    if least ≤ byte ∧ byte ≤ greatest then
      let (taken, rest) := takeFollowers ranges bytes
      (byte :: taken, rest)
    else ([], byte :: bytes)
  | _, bytes => ([], bytes)

/-- Taking bytes that follow a first one leaves no more bytes than there were. -/
theorem length_takeFollowers_le (ranges : List (UInt8 × UInt8)) (bytes : List UInt8) :
    (takeFollowers ranges bytes).2.length ≤ bytes.length := by
  fun_induction takeFollowers ranges bytes with
  | case1 least greatest ranges byte bytes h taken rest heq ih =>
    simp only [heq] at ih
    simp only [List.length_cons]
    omega
  | case2 => simp
  | case3 => simp

/-- The number whose digits to base 64 are the low six bits of the bytes, behind `number`. -/
def withFollowers (number : Nat) (bytes : List UInt8) : Nat :=
  bytes.foldl (fun number byte => number * 64 + byte.toNat % 64) number

/-- The character that a first byte and all the bytes after it stand for. -/
def charOfBytes (first : UInt8) (after : List UInt8) : Char :=
  match after.length with
  | 0 => Char.ofNat first.toNat
  | 1 => Char.ofNat (withFollowers (first.toNat % 32) after)
  | 2 => Char.ofNat (withFollowers (first.toNat % 16) after)
  | _ => Char.ofNat (withFollowers (first.toNat % 8) after)

/-- The character that a first byte and the bytes taken after it stand for, or the replacement character if no
character starts so or if bytes are missing. -/
def charAtFront (first : UInt8) (taken : List UInt8) : Char :=
  if taken.length = (followers first).length ∧ (first < 0x80 ∨ followers first ≠ []) then
    charOfBytes first taken
  else replacementChar

/-- The characters of bytes, with the replacement character for what encodes none. -/
def lossyChars : List UInt8 → List Char
  | [] => []
  | first :: bytes =>
    have := length_takeFollowers_le (followers first) bytes
    charAtFront first (takeFollowers (followers first) bytes).1 ::
      lossyChars (takeFollowers (followers first) bytes).2
termination_by bytes => bytes.length
decreasing_by simp only [List.length_cons]; omega

/-- The text of bytes, which need not be UTF-8. -/
def lossyText (bytes : ByteArray) : String :=
  match String.fromUTF8? bytes with
  | some text => text
  | none => String.ofList (lossyChars bytes.data.toList)

/-- Bytes that are UTF-8 lose nothing. -/
theorem lossyText_eq_of_fromUTF8? {bytes : ByteArray} {text : String}
    (h : String.fromUTF8? bytes = some text) : lossyText bytes = text := by
  simp [lossyText, h]

end NativeHeaders.Text
