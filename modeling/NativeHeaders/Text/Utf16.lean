/-! # UTF-16 code units

A text as its UTF-16 code units: one for a character below U+10000 and a pair of surrogates for any other.
`charsOfUnits?` reads units back and refuses a surrogate that stands alone. -/

namespace NativeHeaders.Text

/-- The code units of a character. -/
def charUnits (c : Char) : List UInt16 :=
  if c.toNat < 0x10000 then [UInt16.ofNat c.toNat]
  else
    let offset := c.toNat - 0x10000
    [UInt16.ofNat (0xD800 + offset / 0x400), UInt16.ofNat (0xDC00 + offset % 0x400)]

/-- The code units of a text. -/
def units (chars : List Char) : List UInt16 := chars.flatMap charUnits

/-- Whether a unit is the first of a pair. -/
def isHighSurrogate (unit : UInt16) : Bool := 0xD800 ≤ unit && unit < 0xDC00

/-- Whether a unit is the second of a pair. -/
def isLowSurrogate (unit : UInt16) : Bool := 0xDC00 ≤ unit && unit < 0xE000

/-- The character a pair of surrogates stands for. -/
def pairChar (high low : UInt16) : Char :=
  Char.ofNat (0x10000 + (high.toNat - 0xD800) * 0x400 + (low.toNat - 0xDC00))

/-- The text with the given code units. -/
def charsOfUnits? : List UInt16 → Option (List Char)
  | [] => some []
  | unit :: rest =>
    if isHighSurrogate unit then
      match rest with
      | [] => none
      | low :: rest =>
        if isLowSurrogate low then (charsOfUnits? rest).map (pairChar unit low :: ·) else none
    else if isLowSurrogate unit then none
    else (charsOfUnits? rest).map (Char.ofNat unit.toNat :: ·)

/-- No characters have no code units. -/
@[simp] theorem units_nil : units [] = [] := rfl

/-- The code units of the first character come first. -/
@[simp] theorem units_cons (c : Char) (chars : List Char) :
    units (c :: chars) = charUnits c ++ units chars := by
  simp [units]

/-- The code units of two texts, one behind the other, are those of the one and then those of the
other. -/
theorem units_append (first second : List Char) :
    units (first ++ second) = units first ++ units second := by
  simp [units]

end NativeHeaders.Text
