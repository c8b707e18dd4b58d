/-! # ASCII case

Comparison of texts in which the case of ASCII letters does not matter. -/

namespace NativeHeaders.Text

/-- The text with its ASCII letters in lower case. -/
def asciiLower (text : String) : List Char := text.toList.map Char.toLower

/-- Whether two texts differ at most in the case of ASCII letters. -/
def equalIgnoringCase (first second : String) : Bool := asciiLower first = asciiLower second

end NativeHeaders.Text
