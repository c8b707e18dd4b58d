import NativeHeaders.Text.Hexadecimal

/-! # Texts in TOML

TOML has four ways to write a text. Quotes or apostrophes stand around it, three of them if it has several lines,
and between quotes a backslash starts an escape. Readers take characters off the front of a list in which every
line ends in a single line feed, and give nothing if no text stands there. -/

namespace NativeHeaders.Toml

/-- Whether a character may stand for itself in a text or in a comment: all but control characters, of which only
the tabulator is allowed. -/
def isPlain (c : Char) : Bool := c = '\t' || (' ' ≤ c && c ≠ '\x7F')

/-- Whether a character is a blank within a line. -/
def isBlank (c : Char) : Bool := c = ' ' || c = '\t'

/-! ### Escapes -/

/-- The number that hexadecimal digits stand for. -/
def hexNumber? (digits : List Char) : Option Nat :=
  digits.foldlM (fun number c => (Text.hexValue? c).map (number * 16 + ·)) 0

/-- The character whose number has the given count of digits. -/
def readScalar (count : Nat) (chars : List Char) : Option (Char × List Char) := do
  if chars.length < count then none
  let number ← hexNumber? (chars.take count)
  if number.isValidChar then return (Char.ofNat number, chars.drop count) else none

/-- The character for which the escape behind a backslash stands. -/
def readEscape : List Char → Option (Char × List Char)
  | 'b' :: rest => some ('\x08', rest)
  | 't' :: rest => some ('\t', rest)
  | 'n' :: rest => some ('\n', rest)
  | 'f' :: rest => some ('\x0C', rest)
  | 'r' :: rest => some ('\r', rest)
  | '"' :: rest => some ('"', rest)
  | '\\' :: rest => some ('\\', rest)
  | 'u' :: rest => readScalar 4 rest
  | 'U' :: rest => readScalar 8 rest
  | _ => none

/-- Reading the digits of a character leaves no more characters than there were. -/
theorem length_readScalar_le {count : Nat} {chars rest : List Char} {c : Char}
    (h : readScalar count chars = some (c, rest)) : rest.length ≤ chars.length := by
  unfold readScalar at h
  by_cases hlt : chars.length < count
  · simp [hlt] at h
  · cases hn : hexNumber? (chars.take count) with
    | none => simp [hlt, hn] at h
    | some number =>
      by_cases hv : number.isValidChar
      · simp [hlt, hn, hv] at h
        simp [← h.2]
      · simp [hlt, hn, hv] at h

/-- Reading an escaped character uses up characters. -/
theorem length_readEscape_lt {chars rest : List Char} {c : Char}
    (h : readEscape chars = some (c, rest)) : rest.length < chars.length := by
  unfold readEscape at h
  split at h
  case h_8 | h_9 =>
    have := length_readScalar_le h
    simp only [List.length_cons]
    omega
  case h_10 => simp at h
  all_goals
    simp only [Option.some.injEq, Prod.mk.injEq] at h
    simp [← h.2]

/-! ### Texts -/

/-- The rest of a text on one line, up to the closing mark. -/
def readShort (mark : Char) (hasEscapes : Bool) : List Char → Option (List Char × List Char)
  | [] => none
  | c :: rest =>
    if c = mark then some ([], rest)
    else if hasEscapes && c = '\\' then
      match h : readEscape rest with
      | none => none
      | some (escaped, next) =>
        have := length_readEscape_lt h
        (readShort mark hasEscapes next).map fun (text, rest) => (escaped :: text, rest)
    else if isPlain c then
      (readShort mark hasEscapes rest).map fun (text, rest) => (c :: text, rest)
    else none
termination_by chars => chars.length

/-- The characters without blanks and line feeds at the start. -/
def skipLines (chars : List Char) : List Char := chars.dropWhile fun c => isBlank c || c = '\n'

/-- The characters behind a line feed at the end of a line that has only blanks, if this is one. -/
def afterLineEnd? (chars : List Char) : Option (List Char) :=
  match chars.dropWhile isBlank with
  | '\n' :: rest => some rest
  | _ => none

/-- A line end uses up characters. -/
theorem length_afterLineEnd?_lt {chars rest : List Char} (h : afterLineEnd? chars = some rest) :
    rest.length < chars.length := by
  unfold afterLineEnd? at h
  split at h
  · next heq =>
    cases h
    have := (List.dropWhile_suffix (l := chars) isBlank).length_le
    rw [heq, List.length_cons] at this
    omega
  · simp at h

/-- The marks of the text at the end of which three marks close it, and the rest; none if they do not. Up to two
marks right in front of the closing ones belong to the text. -/
def closeLong? (mark : Char) (chars : List Char) : Option (List Char × List Char) :=
  let count := min 5 (chars.takeWhile (· = mark)).length
  if count < 3 then none else some (List.replicate (count - 3) mark, chars.drop count)

/-- The rest of a text on several lines, up to the closing marks. A backslash at the end of a line joins it with
the next line that is not blank. -/
def readLong (mark : Char) (hasEscapes : Bool) : List Char → Option (List Char × List Char)
  | [] => none
  | c :: rest =>
    match closeLong? mark (c :: rest) with
    | some closed => some closed
    | none =>
      if hasEscapes && c = '\\' then
        match hl : afterLineEnd? rest with
        | some next =>
          have := length_afterLineEnd?_lt hl
          have := (List.dropWhile_suffix (l := next) fun c => isBlank c || c = '\n').length_le
          readLong mark hasEscapes (skipLines next)
        | none =>
          match h : readEscape rest with
          | none => none
          | some (escaped, next) =>
            have := length_readEscape_lt h
            (readLong mark hasEscapes next).map fun (text, rest) => (escaped :: text, rest)
      else if isPlain c || c = '\n' then
        (readLong mark hasEscapes rest).map fun (text, rest) => (c :: text, rest)
      else none
termination_by chars => chars.length
decreasing_by
  · simp only [skipLines, List.length_cons]; omega
  · simp only [List.length_cons]; omega
  · simp

/-- The characters without a line feed at the start. -/
def afterFirstLineEnd : List Char → List Char
  | '\n' :: rest => rest
  | chars => chars

/-- A text on one line. -/
def readShortText : List Char → Option (List Char × List Char)
  | '"' :: rest => readShort '"' true rest
  | '\'' :: rest => readShort '\'' false rest
  | _ => none

/-- A text written in any way. -/
def readText : List Char → Option (List Char × List Char)
  | '"' :: '"' :: '"' :: rest => readLong '"' true (afterFirstLineEnd rest)
  | '\'' :: '\'' :: '\'' :: rest => readLong '\'' false (afterFirstLineEnd rest)
  | chars => readShortText chars

end NativeHeaders.Toml
