import NativeHeaders.Proofs.Symbol.Lookalikes
import NativeHeaders.Settings.Toml

/-! # Tables as they are written

`written` writes a table with a key and its value on each line. Texts stand between quotes, and the
characters that may not stand there for themselves are escaped. Whatever the texts and keys are, the
table is read back (`parse?_written`): each reader takes exactly what the writer wrote off the front
and leaves what follows. -/

namespace NativeHeaders.Toml

/-! ### The writer -/

/-- A character between quotes. -/
def escaped (c : Char) : List Char :=
  if c = '"' ∨ c = '\\' then ['\\', c]
  else if isPlain c then [c]
  else '\\' :: 'u' :: Text.hexDigits 4 c.toNat

/-- A text between quotes. -/
def quoted (text : String) : List Char := '"' :: (text.toList.flatMap escaped ++ ['"'])

/-- The texts of a list behind its opening bracket. -/
def listed : List String → List Char
  | [] => [']']
  | [text] => quoted text ++ [']']
  | text :: texts => quoted text ++ ',' :: ' ' :: listed texts

/-- A value. -/
def Value.written : Value → List Char
  | .text content => quoted content
  | .flag true => ['t', 'r', 'u', 'e']
  | .flag false => ['f', 'a', 'l', 's', 'e']
  | .texts contents => '[' :: listed contents

/-- A key, with quotes only if it needs them. -/
def writtenKey (key : String) : List Char :=
  if key.toList ≠ [] ∧ key.toList.all isKeyChar then key.toList else quoted key

/-- A key and its value on a line. -/
def writtenLine (pair : String × Value) : List Char :=
  writtenKey pair.1 ++ ' ' :: '=' :: ' ' :: (pair.2.written ++ ['\n'])

/-- **The text of a table**, with one line for each pair. -/
def written (table : List (String × Value)) : String := String.ofList (table.flatMap writtenLine)

/-! ### Texts between quotes -/

/-- Hexadecimal digits are read as the number of which they are the last digits. -/
theorem hexNumber?_hexDigits (width number : Nat) :
    hexNumber? (Text.hexDigits width number) = some (number % 16 ^ width) := by
  induction width generalizing number with
  | zero => simp [Text.hexDigits, hexNumber?, Nat.mod_one]
  | succ width ih =>
    have hdigit : number % 16 < 16 := Nat.mod_lt _ (by decide)
    have hquotient := ih (number / 16)
    rw [hexNumber?] at hquotient
    rw [Text.hexDigits, hexNumber?, List.foldlM_append, hquotient]
    simp [Symbol.hexValue?_hexDigit _ hdigit, Nat.pow_succ, Nat.mul_comm (16 ^ width) 16,
      Nat.mod_mul]
    omega

/-- A character that is not plain has one of the first 128 numbers. -/
theorem toNat_lt_of_not_isPlain {c : Char} (h : isPlain c = false) : c.toNat < 128 := by
  by_contra hlarge
  have hspace : ' ' ≤ c := by
    rw [Char.le_def, UInt32.le_iff_toNat_le]
    have hnumber : (' ' : Char).val.toNat = 32 := rfl
    have hc : c.val.toNat = c.toNat := rfl
    omega
  have hdelete : c ≠ '\x7F' := by
    rintro rfl
    exact hlarge (by decide)
  simp [isPlain, hspace, hdelete] at h

/-- The escape of a character by its number is read back. -/
theorem readEscape_hexDigits {c : Char} (h : c.toNat < 16 ^ 4) (rest : List Char) :
    readEscape ('u' :: (Text.hexDigits 4 c.toNat ++ rest)) = some (c, rest) := by
  have hlength : ¬(Text.hexDigits 4 c.toNat ++ rest).length < 4 := by simp
  have htake : (Text.hexDigits 4 c.toNat ++ rest).take 4 = Text.hexDigits 4 c.toNat :=
    List.take_left' (Text.length_hexDigits 4 _)
  have hdrop : (Text.hexDigits 4 c.toNat ++ rest).drop 4 = rest :=
    List.drop_left' (Text.length_hexDigits 4 _)
  have hvalid : c.toNat.isValidChar := c.valid
  rw [readEscape, readScalar, if_neg hlength, htake, hdrop, hexNumber?_hexDigits,
    Nat.mod_eq_of_lt h]
  simp [hvalid]

/-- An escape gives its character, and the rest of the text stands behind it. -/
theorem readShort_backslash {chars next : List Char} {c : Char}
    (h : readEscape chars = some (c, next)) :
    readShort '"' true ('\\' :: chars) =
      (readShort '"' true next).map fun (text, rest) => (c :: text, rest) := by
  rw [readShort, if_neg (by decide), if_pos (by decide)]
  split
  · next hnone =>
    rw [h] at hnone
    cases hnone
  · next escaped after hsome =>
    rw [h] at hsome
    cases hsome
    rfl

/-- A character is read back, whatever stands behind it. -/
theorem readShort_escaped (c : Char) (rest : List Char) :
    readShort '"' true (escaped c ++ rest) =
      (readShort '"' true rest).map fun (text, rest) => (c :: text, rest) := by
  unfold escaped
  by_cases hmark : c = '"' ∨ c = '\\'
  · -- A quote or a backslash stands behind a backslash.
    have hescape : readEscape (c :: rest) = some (c, rest) := by
      obtain rfl | rfl := hmark <;> rfl
    rw [if_pos hmark]
    exact readShort_backslash hescape
  · rw [if_neg hmark]
    rw [not_or] at hmark
    by_cases hplain : isPlain c = true
    · rw [if_pos hplain, List.singleton_append, readShort, if_neg hmark.1]
      simp [hmark.2, hplain]
    · have hnumber := toNat_lt_of_not_isPlain (Bool.eq_false_iff.mpr hplain)
      rw [if_neg hplain]
      exact readShort_backslash (readEscape_hexDigits (lt_trans hnumber (by decide)) rest)

/-- The characters of a text are read back up to the quote behind them. -/
theorem readShort_flatMap_escaped (text rest : List Char) :
    readShort '"' true (text.flatMap escaped ++ '"' :: rest) = some (text, rest) := by
  induction text with
  | nil => simp [readShort]
  | cons c text ih =>
    rw [List.flatMap_cons, List.append_assoc, readShort_escaped, ih]
    rfl

/-- An escaped character begins with something that is no quote. -/
theorem exists_escaped_eq_cons (c : Char) :
    ∃ first rest, escaped c = first :: rest ∧ first ≠ '"' := by
  unfold escaped
  by_cases hmark : c = '"' ∨ c = '\\'
  · exact ⟨'\\', [c], if_pos hmark, by decide⟩
  · rw [if_neg hmark]
    by_cases hplain : isPlain c = true
    · exact ⟨c, [], if_pos hplain, (not_or.mp hmark).1⟩
    · exact ⟨'\\', _, if_neg hplain, by decide⟩

/-- A text between quotes does not begin with three quotes. -/
theorem quoted_append_ne (text : String) {rest : List Char} (h : rest.head? ≠ some '"')
    (others : List Char) : quoted text ++ rest ≠ '"' :: '"' :: '"' :: others := by
  intro heq
  cases hchars : text.toList with
  | nil =>
    have hrest : rest = '"' :: others := by simpa [quoted, hchars] using heq
    exact h (by rw [hrest]; rfl)
  | cons c chars =>
    obtain ⟨first, more, hescaped, hfirst⟩ := exists_escaped_eq_cons c
    rw [quoted, hchars, List.flatMap_cons, hescaped] at heq
    exact hfirst (List.cons.inj (List.cons.inj heq).2).1

/-- **A text between quotes is read back** by `readText`, unless a further quote follows. -/
theorem readText_quoted (text : String) {rest : List Char} (h : rest.head? ≠ some '"') :
    readText (quoted text ++ rest) = some (text.toList, rest) := by
  have hshort : readShortText (quoted text ++ rest) = some (text.toList, rest) := by
    rw [quoted, List.cons_append, List.append_assoc, List.singleton_append]
    exact readShort_flatMap_escaped text.toList rest
  unfold readText
  split
  · next others heq => exact absurd heq (quoted_append_ne text h others)
  · next others heq => simp [quoted] at heq
  · exact hshort

/-! ### Values -/

/-- Blanks in front of a text, or of the end of a list, are passed over. -/
theorem skipFiller_listed (texts : List String) (rest : List Char) :
    skipFiller false (' ' :: (listed texts ++ rest)) = listed texts ++ rest := by
  have hblank : ∀ chars, skipFiller false (' ' :: chars) = skipFiller false chars := fun _ => rfl
  rw [hblank]
  match texts with
  | [] => rfl
  | [text] => rfl
  | text :: other :: texts => rfl

/-- The texts of a list are read back, if there are more steps than texts. -/
theorem readTexts_listed {texts : List String} {steps : Nat} (h : texts.length < steps)
    {chars rest : List Char} (hchars : skipFiller false chars = listed texts ++ rest) :
    readTexts steps chars = some (texts, rest) := by
  induction texts generalizing steps chars with
  | nil =>
    obtain ⟨steps, rfl⟩ := Nat.exists_eq_add_of_lt h
    rw [readTexts, hchars]
    rfl
  | cons text texts ih =>
    cases steps with
    | zero => simp at h
    | succ steps =>
      rw [List.length_cons, Nat.add_lt_add_iff_right] at h
      cases texts with
      | nil =>
        -- The closing bracket stands behind the last text.
        have htext : readText (quoted text ++ ']' :: rest) = some (text.toList, ']' :: rest) :=
          readText_quoted text (by simp)
        have hlist : listed [text] ++ rest = quoted text ++ ']' :: rest := by simp [listed]
        rw [readTexts, hchars, hlist]
        split
        · next heq => simp [quoted] at heq
        · rw [htext]
          simp [skipFiller, isBlank]
      | cons other texts =>
        have htext : ∀ behind, readText (quoted text ++ ',' :: behind) =
            some (text.toList, ',' :: behind) := fun _ => readText_quoted text (by simp)
        have hlist : listed (text :: other :: texts) ++ rest =
            quoted text ++ ',' :: ' ' :: (listed (other :: texts) ++ rest) := by simp [listed]
        have hrest := ih h (skipFiller_listed (other :: texts) rest)
        rw [readTexts, hchars, hlist]
        split
        · next heq => simp [quoted] at heq
        · rw [htext]
          simp [skipFiller, isBlank, hrest]

/-- A list has more characters than texts. -/
theorem length_lt_length_listed (texts : List String) : texts.length < (listed texts).length := by
  induction texts using listed.induct with
  | case1 => simp [listed]
  | case2 text => simp [listed, quoted]
  | case3 text texts _ ih =>
    simp only [listed, List.length_cons, List.length_append]
    omega

/-- A value is read back, unless a quote follows. -/
theorem readValue_written (value : Value) {rest : List Char} (h : rest.head? ≠ some '"') :
    readValue (value.written ++ rest) = some (value, rest) := by
  cases value with
  | text content =>
    have htext := readText_quoted content h
    rw [Value.written, readValue]
    · rw [htext]
      simp
    all_goals simp [quoted]
  | flag isOn => cases isOn <;> rfl
  | texts contents =>
    have hsteps : contents.length < ('[' :: (listed contents ++ rest)).length := by
      have hlength := length_lt_length_listed contents
      simp only [List.length_cons, List.length_append]
      omega
    have hfiller : skipFiller false (listed contents ++ rest) = listed contents ++ rest :=
      skipFiller_listed contents rest
    rw [Value.written, List.cons_append, readValue, readTexts_listed hsteps hfiller]
    rfl

/-! ### Lines -/

/-- A key is read back if a blank stands behind it. -/
theorem readKey_writtenKey (key : String) (rest : List Char) :
    readKey (writtenKey key ++ ' ' :: rest) = some (key, ' ' :: rest) := by
  unfold writtenKey
  by_cases hbare : key.toList ≠ [] ∧ key.toList.all isKeyChar
  · have hchars : ∀ c ∈ key.toList, isKeyChar c = true := List.all_eq_true.mp hbare.2
    have htake : (key.toList ++ ' ' :: rest).takeWhile isKeyChar = key.toList := by
      rw [List.takeWhile_append_of_pos hchars]
      simp [isKeyChar]
    have hdrop : (key.toList ++ ' ' :: rest).dropWhile isKeyChar = ' ' :: rest := by
      rw [List.dropWhile_append_of_pos hchars]
      simp [isKeyChar]
    rw [if_pos hbare, readKey, htake, hdrop]
    split
    · next hempty => exact absurd hempty hbare.1
    · rw [String.ofList_toList]
  · rw [if_neg hbare, readKey]
    have hshort : readShortText (quoted key ++ ' ' :: rest) = some (key.toList, ' ' :: rest) := by
      rw [quoted, List.cons_append, List.append_assoc, List.singleton_append]
      exact readShort_flatMap_escaped key.toList (' ' :: rest)
    rw [hshort]
    simp [quoted, isKeyChar]

/-- A line with a key begins with a character that is no blank, opens no comment, ends no line and
is no byte order mark. -/
theorem exists_writtenLine_eq_cons (pair : String × Value) :
    ∃ first rest, writtenLine pair = first :: rest ∧
      first ∉ [' ', '\t', '\n', '#', '\uFEFF'] := by
  unfold writtenLine writtenKey
  by_cases hbare : pair.1.toList ≠ [] ∧ pair.1.toList.all isKeyChar
  · obtain ⟨c, chars, hkey⟩ := List.exists_cons_of_ne_nil hbare.1
    have hc : isKeyChar c = true := List.all_eq_true.mp hbare.2 c (hkey ▸ List.mem_cons_self)
    rw [if_pos hbare, hkey]
    refine ⟨c, _, rfl, fun hmem => ?_⟩
    have hnone : [' ', '\t', '\n', '#', '\uFEFF'].all (!isKeyChar ·) = true := by decide
    simpa [hc] using List.all_eq_true.mp hnone c hmem
  · rw [if_neg hbare]
    exact ⟨'"', _, rfl, by decide⟩

/-- A value does not begin with a blank. -/
theorem skipBlanks_written (value : Value) (rest : List Char) :
    skipBlanks (' ' :: (value.written ++ rest)) = value.written ++ rest := by
  have hblank : ∀ chars, skipBlanks (' ' :: chars) = skipBlanks chars := fun _ => rfl
  rw [hblank]
  cases value with
  | text content => rfl
  | flag isOn => cases isOn <;> rfl
  | texts contents => rfl

/-- A line is read back. -/
theorem readPair_writtenLine (pair : String × Value) (rest : List Char) :
    readPair (writtenLine pair ++ rest) = some (pair, '\n' :: rest) := by
  have hline : writtenLine pair ++ rest =
      writtenKey pair.1 ++ ' ' :: '=' :: ' ' :: (pair.2.written ++ '\n' :: rest) := by
    simp [writtenLine]
  have hvalue : readValue (pair.2.written ++ '\n' :: rest) = some (pair.2, '\n' :: rest) :=
    readValue_written pair.2 (by simp)
  have hequals : ∀ chars, skipBlanks (' ' :: '=' :: chars) = '=' :: chars := fun _ => rfl
  rw [hline, readPair, readKey_writtenKey]
  simp [hequals, skipBlanks_written, hvalue]

/-- A line with a key does not begin with blanks. -/
theorem skipBlanks_writtenLine (pair : String × Value) (rest : List Char) :
    skipBlanks (writtenLine pair ++ rest) = writtenLine pair ++ rest := by
  obtain ⟨first, more, hline, hfirst⟩ := exists_writtenLine_eq_cons pair
  have hblank : isBlank first = false := by
    simp only [List.mem_cons, not_or] at hfirst
    simp [isBlank, hfirst.1, hfirst.2.1]
  rw [hline, List.cons_append, skipBlanks, List.dropWhile_cons_of_neg (by simp [hblank])]

/-- A line with a key does not end where it begins. -/
theorem readLineEnd_writtenLine (pair : String × Value) (rest : List Char) :
    readLineEnd (writtenLine pair ++ rest) = none := by
  obtain ⟨first, more, hline, hfirst⟩ := exists_writtenLine_eq_cons pair
  simp only [List.mem_cons, not_or] at hfirst
  rw [readLineEnd, skipBlanks_writtenLine, hline, List.cons_append]
  simp [hfirst.2.2.1, hfirst.2.2.2.1]

/-! ### Tables -/

/-- The lines of a table are read back, if there are as many steps as lines. -/
theorem readLines_flatMap_writtenLine {table : List (String × Value)} {steps : Nat}
    (h : table.length ≤ steps) : readLines steps (table.flatMap writtenLine) = some table := by
  induction table generalizing steps with
  | nil => cases steps <;> rfl
  | cons pair table ih =>
    cases steps with
    | zero => simp at h
    | succ steps =>
      rw [List.length_cons, Nat.add_le_add_iff_right] at h
      have hend : readLineEnd ('\n' :: table.flatMap writtenLine) =
          some (table.flatMap writtenLine) := rfl
      rw [List.flatMap_cons, readLines]
      · rw [readLineEnd_writtenLine, skipBlanks_writtenLine, readPair_writtenLine]
        simp [hend, ih h]
      · obtain ⟨first, more, hline, -⟩ := exists_writtenLine_eq_cons pair
        simp [hline]

/-- A character between quotes is not written with a carriage return. -/
theorem notMem_escaped (c : Char) : '\r' ∉ escaped c := by
  have hdigits : '\r' ∉ Text.hexDigits 4 c.toNat := fun hmem =>
    absurd (Symbol.isAlphanum_hexDigits 4 c.toNat _ hmem) (by decide)
  unfold escaped
  by_cases hmark : c = '"' ∨ c = '\\'
  · obtain rfl | rfl := hmark <;> decide
  · rw [if_neg hmark]
    by_cases hplain : isPlain c = true
    · rw [if_pos hplain, List.mem_singleton]
      rintro rfl
      exact absurd hplain (by decide)
    · simp [hplain, hdigits]

/-- A text between quotes is written without a carriage return. -/
theorem notMem_quoted (text : String) : '\r' ∉ quoted text := by
  simp [quoted, notMem_escaped]

/-- So are the texts of a list. -/
theorem notMem_listed (texts : List String) : '\r' ∉ listed texts := by
  induction texts using listed.induct with
  | case1 => decide
  | case2 text => simp [listed, notMem_quoted]
  | case3 text texts _ ih => simp [listed, notMem_quoted, ih]

/-- No line has a carriage return. -/
theorem notMem_writtenLine (pair : String × Value) : '\r' ∉ writtenLine pair := by
  have hkey : '\r' ∉ writtenKey pair.1 := by
    unfold writtenKey
    by_cases hbare : pair.1.toList ≠ [] ∧ pair.1.toList.all isKeyChar
    · rw [if_pos hbare]
      exact fun hmem => absurd (List.all_eq_true.mp hbare.2 _ hmem) (by decide)
    · rw [if_neg hbare]
      exact notMem_quoted pair.1
  have hvalue : '\r' ∉ pair.2.written := by
    cases pair.2 with
    | text content => exact notMem_quoted content
    | flag isOn => cases isOn <;> decide
    | texts contents => simp [Value.written, notMem_listed]
  simp [writtenLine, hkey, hvalue]

/-- Without carriage returns there are no line ends to change. -/
theorem withLineFeeds_of_notMem {chars : List Char} (h : '\r' ∉ chars) :
    withLineFeeds chars = chars := by
  induction chars using withLineFeeds.induct with
  | case1 rest => simp at h
  | case2 c rest _ ih =>
    rw [List.mem_cons, not_or] at h
    rw [withLineFeeds, ih h.2]
    assumption
  | case3 => rfl

/-- A text has more characters than lines. -/
theorem length_le_length_flatMap (table : List (String × Value)) :
    table.length ≤ (table.flatMap writtenLine).length := by
  induction table with
  | nil => simp
  | cons pair table ih =>
    obtain ⟨first, more, hline, -⟩ := exists_writtenLine_eq_cons pair
    rw [List.flatMap_cons, hline]
    simp only [List.length_cons, List.length_append]
    omega

/-- **A table is read back from its text**, if its keys are distinct. -/
theorem parse?_written {table : List (String × Value)} (h : (table.map Prod.fst).Nodup) :
    parse? (written table) = some table := by
  have hmark : withoutMark (table.flatMap writtenLine) = table.flatMap writtenLine := by
    cases table with
    | nil => rfl
    | cons pair table =>
      obtain ⟨first, more, hline, hfirst⟩ := exists_writtenLine_eq_cons pair
      simp only [List.mem_cons, not_or] at hfirst
      rw [List.flatMap_cons, hline, List.cons_append, withoutMark]
      simp [hfirst.2.2.2.2.1]
  have hfeeds : withLineFeeds (table.flatMap writtenLine) = table.flatMap writtenLine :=
    withLineFeeds_of_notMem (by simp [notMem_writtenLine])
  have hlines :=
    readLines_flatMap_writtenLine (Nat.le_succ_of_le (length_le_length_flatMap table))
  simp only [parse?, written, String.toList_ofList, hmark, hfeeds, hlines]
  simp [h]

end NativeHeaders.Toml
