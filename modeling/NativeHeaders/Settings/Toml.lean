import NativeHeaders.Settings.Toml.Quoted

/-! # Tables in TOML

The part of TOML in which settings are written: a table whose values are texts, truth values and lists of texts,
one key with its value on a line, with comments behind a number sign. Everything else that TOML has gives no
table here, because no setting has such a value. -/

namespace NativeHeaders.Toml

/-- A value. -/
inductive Value where
  /-- A text. -/
  | text (text : String)
  /-- A truth value. -/
  | flag (isOn : Bool)
  /-- A list of texts. -/
  | texts (texts : List String)
deriving DecidableEq, Repr

/-- The characters without blanks at the start. -/
def skipBlanks (chars : List Char) : List Char := chars.dropWhile isBlank

/-! ### Lists -/

/-- The characters without blanks, line feeds and comments at the start, which may stand between the texts of a
list. Inside a comment all plain characters are passed over. -/
def skipFiller : Bool → List Char → List Char
  | _, [] => []
  | false, c :: rest =>
    if isBlank c || c = '\n' then skipFiller false rest
    else if c = '#' then skipFiller true rest
    else c :: rest
  | true, c :: rest =>
    if c = '\n' then skipFiller false rest
    else if isPlain c then skipFiller true rest
    else c :: rest

/-- The rest of a list, up to its closing bracket. Every text takes characters, so that as many steps as there are
characters are enough. -/
def readTexts : Nat → List Char → Option (List String × List Char)
  | 0, _ => none
  | steps + 1, chars =>
    match skipFiller false chars with
    | ']' :: rest => some ([], rest)
    | chars => do
      let (text, rest) ← readText chars
      match skipFiller false rest with
      | ']' :: rest => some ([String.ofList text], rest)
      | ',' :: rest =>
        let (texts, rest) ← readTexts steps rest
        some (String.ofList text :: texts, rest)
      | _ => none

/-- A value of any kind. -/
def readValue (chars : List Char) : Option (Value × List Char) :=
  match chars with
  | '[' :: rest => (readTexts chars.length rest).map fun (texts, rest) => (.texts texts, rest)
  | 't' :: 'r' :: 'u' :: 'e' :: rest => some (.flag true, rest)
  | 'f' :: 'a' :: 'l' :: 's' :: 'e' :: rest => some (.flag false, rest)
  | chars => (readText chars).map fun (text, rest) => (.text (String.ofList text), rest)

/-! ### Lines -/

/-- Whether a character may stand in a key without quotes. -/
def isKeyChar (c : Char) : Bool := c.isAlphanum || c = '-' || c = '_'

/-- A key, with or without quotes. -/
def readKey (chars : List Char) : Option (String × List Char) :=
  match chars.takeWhile isKeyChar with
  | [] => (readShortText chars).map fun (text, rest) => (String.ofList text, rest)
  | key => some (String.ofList key, chars.dropWhile isKeyChar)

/-- The characters behind the end of a line that has at most a comment left. -/
def readLineEnd (chars : List Char) : Option (List Char) :=
  let afterComment := match skipBlanks chars with
    | '#' :: rest => rest.dropWhile isPlain
    | chars => chars
  match afterComment with
  | [] => some []
  | '\n' :: rest => some rest
  | _ => none

/-- A key, an equals sign and a value. -/
def readPair (chars : List Char) : Option ((String × Value) × List Char) := do
  let (key, rest) ← readKey chars
  match skipBlanks rest with
  | '=' :: rest =>
    let (value, rest) ← readValue (skipBlanks rest)
    return ((key, value), rest)
  | _ => none

/-- The pairs on lines. Every line takes a character. -/
def readLines : Nat → List Char → Option (List (String × Value))
  | _, [] => some []
  | 0, _ => none
  | steps + 1, chars =>
    match readLineEnd chars with
    | some rest => readLines steps rest
    | none => do
      let (pair, rest) ← readPair (skipBlanks chars)
      let pairs ← readLines steps (← readLineEnd rest)
      return pair :: pairs

/-- The characters in which every line ends in a single line feed. -/
def withLineFeeds : List Char → List Char
  | '\r' :: '\n' :: rest => '\n' :: withLineFeeds rest
  | c :: rest => c :: withLineFeeds rest
  | [] => []

/-- The characters without a byte order mark at the start. -/
def withoutMark : List Char → List Char
  | '\uFEFF' :: rest => rest
  | chars => chars

/-- The pairs of a table, in order, with distinct keys. -/
def parse? (text : String) : Option (List (String × Value)) := do
  let chars := withLineFeeds (withoutMark text.toList)
  let pairs ← readLines (chars.length + 1) chars
  if (pairs.map Prod.fst).Nodup then return pairs else none

end NativeHeaders.Toml
