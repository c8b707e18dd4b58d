/-! # Blank characters

The characters with the property White_Space, and texts without them at their ends. -/

namespace NativeHeaders.Text

/-- The ranges of blank characters, each with its first and its last character. -/
def blankRanges : List (Char × Char) :=
  [('\t', '\r'), (' ', ' '), ('\u0085', '\u0085'), ('\u00A0', '\u00A0'), ('\u1680', '\u1680'),
    ('\u2000', '\u200A'), ('\u2028', '\u2029'), ('\u202F', '\u202F'), ('\u205F', '\u205F'),
    ('\u3000', '\u3000')]

/-- Whether a character is blank. -/
def isBlank (c : Char) : Bool := blankRanges.any fun (first, last) => first ≤ c && c ≤ last

/-- Whether a text has no character that is not blank. -/
def isAllBlank (text : String) : Bool := text.toList.all isBlank

/-- The characters without blank ones at the start and at the end. -/
def trimmedChars (chars : List Char) : List Char :=
  ((chars.dropWhile isBlank).reverse.dropWhile isBlank).reverse

/-- The text without blank characters at the start and at the end. -/
def trimmed (text : String) : String := String.ofList (trimmedChars text.toList)

end NativeHeaders.Text
