import NativeHeaders.Proofs.Descriptor.Grammar
import NativeHeaders.Proofs.Scanner.Tracking
import NativeHeaders.Proofs.Text.Positions
import NativeHeaders.Proofs.Text.Utf16

/-! # Descriptors, by position

`FieldType.scan` and `MethodDescriptor.scan` go over the bytes of a text, where a class name may hold
characters of several bytes. They compute what `FieldType.parse` and `MethodDescriptor.parse` find in
the characters. Each step of the scanners starts and ends between two characters, except for the
search for the end of a class name, which starts and ends there only as a whole. -/

namespace NativeHeaders

namespace Descriptor

open Scanner Text

/-- A step that goes over the bytes of a descriptor. -/
abbrev Scan := Scanner DescriptorFault

section Scans

variable (text : String)

/-- The number of bytes that are left. -/
def remaining : Scan Nat := do return (utf8 text).length - (← position)

/-- The byte at the position. -/
def byteHere : Scan UInt8 := do index (utf8 text) (← position)

/-- Passes over a character that has to stand here. -/
def expect (c : Char) : Scan Unit := do
  if (← remaining text) < 1 then refuse (.expected c)
  else if (← byteHere text) ≠ c.toUInt8 then refuse (.expected c)
  else advance 1

/-- Whether a character stands here. -/
def peek (c : Char) : Scan Bool := do
  if (← remaining text) < 1 then refuse .unexpectedEnd
  else return decide ((← byteHere text) = c.toUInt8)

/-- Passes over array dimensions, and counts them behind those that were found. -/
def skipDimensions (dimensions : Nat) : Scan Nat := do
  if 0 < (← remaining text) then
    if (← byteHere text) = '['.toUInt8 then
      if dimensions + 1 > maxDimensions then refuse .tooManyDimensions
      else
        advance 1
        skipDimensions (dimensions + 1)
    else return dimensions
  else return dimensions
termination_by maxDimensions - dimensions

/-- Goes on from a position to a semicolon or to the end. -/
def seekSemicolon (start : Nat) : Scan Unit := do
  if start < (utf8 text).length then
    if (← index (utf8 text) start) ≠ ';'.toUInt8 then
      advance 1
      seekSemicolon (start + 1)
termination_by (utf8 text).length - start

/-- Scans the name of a class with the letter in front of it and the semicolon behind it. -/
def scanReference : Scan FieldType := do
  expect text 'L'
  let start ← position
  seekSemicolon text start
  let stop ← position
  if (utf8 text).length ≤ stop then refuse .unterminatedReference
  else if stop = start then refuse .emptyClassName
  else
    let name ← substring text start stop
    advance 1
    return .object name

/-- Scans a type that is no array and starts with the given byte. -/
def scanElement (byte : UInt8) : Scan FieldType := do
  match PrimitiveType.ofCode? (Char.ofNat byte.toNat) with
  | some type =>
    advance 1
    return .primitive type
  | none =>
    if byte = 'L'.toUInt8 then scanReference text
    else refuse (.unexpectedTag (Char.ofNat byte.toNat))

/-- Scans a type. -/
def scanType : Scan FieldType := do
  let dimensions ← skipDimensions text 0
  if (← remaining text) = 0 then refuse .unexpectedEnd
  else
    let type ← scanElement text (← byteHere text)
    return type.nested dimensions

/-- Scans another parameter behind those that were found, unless the parenthesis is closed. -/
def scanParameter (types : List FieldType) : Scan (List FieldType ⊕ List FieldType) := do
  if ← peek text ')' then return .inr types
  else return .inl (types ++ [← scanType text])

end Scans

/-! ### The loop over parameters goes on -/

section Going

variable {text : String}

/-- Asking how much is left does not go back. -/
theorem advances_remaining : Advances 0 (remaining text) :=
  advances_position.after fun _ => advances_pure _

/-- Looking at the byte at the position does not go back. -/
theorem advances_byteHere : Advances 0 (byteHere text) :=
  advances_position.after fun _ => advances_index _ _

/-- Passing over a character goes on by one position. -/
theorem advances_expect (c : Char) : Advances 1 (expect text c) :=
  advances_remaining.after fun _ => (advances_refuse 1 _).ite <|
    advances_byteHere.after fun _ => (advances_refuse 1 _).ite (advances_advance 1)

/-- Looking whether a character stands here does not go back. -/
theorem advances_peek (c : Char) : Advances 0 (peek text c) :=
  advances_remaining.after fun _ => (advances_refuse 0 _).ite <|
    advances_byteHere.after fun _ => advances_pure _

/-- Passing over dimensions does not go back, by induction on the dimensions that are still allowed.
-/
theorem advances_skipDimensions (dimensions : Nat) : Advances 0 (skipDimensions text dimensions) := by
  induction dimensions using skipDimensions.induct with
  | case1 dimensions ih =>
    rw [skipDimensions]
    refine advances_remaining.after fun _ => Advances.ite ?_ (advances_pure _)
    refine advances_byteHere.after fun _ => Advances.ite ?_ (advances_pure _)
    by_cases hlimit : dimensions + 1 > maxDimensions
    · rw [if_pos hlimit]
      exact advances_refuse 0 _
    · rw [if_neg hlimit]
      exact ((advances_advance 1).bind fun _ => ih hlimit).mono (Nat.zero_le _)

/-- Going on to a semicolon does not go back, by induction on the bytes that are left. -/
theorem advances_seekSemicolon (start : Nat) : Advances 0 (seekSemicolon text start) := by
  induction start using seekSemicolon.induct text with
  | case1 start hlt ih =>
    rw [seekSemicolon, if_pos hlt]
    refine (advances_index _ _).after fun _ => Advances.ite ?_ (advances_pure _)
    exact ((advances_advance 1).bind fun _ => ih).mono (Nat.zero_le _)
  | case2 start hge =>
    rw [seekSemicolon, if_neg hge]
    exact advances_pure _

/-- Scanning the name of a class goes on by one position or more. -/
theorem advances_scanReference : Advances 1 (scanReference text) := by
  refine (advances_expect 'L').before fun _ => advances_position.after fun start => ?_
  refine (advances_seekSemicolon start).after fun _ => advances_position.after fun stop => ?_
  have hname : Advances 0 (do
      let name ← substring text start stop
      advance 1
      return .object name : Scan FieldType) :=
    (advances_substring _ _ _).after fun _ =>
      ((advances_advance 1).bind fun _ => advances_pure _).mono (Nat.zero_le _)
  exact (advances_refuse 0 _).ite ((advances_refuse 0 _).ite hname)

/-- Scanning a type that is no array goes on by one position or more. -/
theorem advances_scanElement (byte : UInt8) : Advances 1 (scanElement text byte) := by
  unfold scanElement
  split
  · exact (advances_advance 1).bind fun _ => advances_pure _
  · exact advances_scanReference.ite (advances_refuse 1 _)

/-- Scanning a type goes on by one position or more, so that scanning parameters ends. -/
theorem advances_scanType : Advances 1 (scanType text) :=
  (advances_skipDimensions 0).after fun _ => advances_remaining.after fun _ =>
    (advances_refuse 1 _).ite <| advances_byteHere.after fun byte =>
      (advances_scanElement byte).bind fun _ => advances_pure _

/-- What is left is counted from the position, and nothing changes. -/
theorem runFrom_remaining (trace : Trace) :
    (remaining text).runFrom trace = (.ok ((utf8 text).length - trace.position), trace) := rfl

/-- A character can only be seen in front of the end. -/
theorem lt_of_peek {c : Char} {found : Bool} {trace after : Trace}
    (h : (peek text c).runFrom trace = (.ok found, after)) :
    trace.position < (utf8 text).length := by
  obtain ⟨_, _, hremaining, hpeek⟩ := runFrom_bind_eq_ok h
  rw [runFrom_remaining] at hremaining
  cases hremaining
  split at hpeek
  · cases hpeek
  · omega

/-- A turn that finds a parameter begins within the text and goes on in it. -/
theorem proceeds_scanParameter : Proceeds (utf8 text).length (scanParameter text) := by
  intro types trace next after hrun
  obtain ⟨found, middle, hpeek, hturn⟩ := runFrom_bind_eq_ok hrun
  have hmiddle := advances_peek _ _ _ _ hpeek
  refine ⟨lt_of_peek hpeek, ?_⟩
  split at hturn
  · cases hturn
  · obtain ⟨type, last, htype, hnext⟩ := runFrom_bind_eq_ok hturn
    cases hnext
    have hlast := advances_scanType _ _ _ htype
    omega

end Going

section Scans

variable (text : String)

/-- Scans types up to and with the closing parenthesis. -/
def scanParameters : Scan (List FieldType) := do
  let types ← loop (scanParameter text) proceeds_scanParameter []
  expect text ')'
  return types

/-- Scans the result of a method. -/
def scanReturn : Scan ReturnType := do
  if ← peek text 'V' then
    advance 1
    return .void
  else return .value (← scanType text)

/-- Scans the parameters in parentheses and the result. -/
def scanMethod : Scan MethodDescriptor := do
  expect text '('
  let parameters ← scanParameters text
  let returnType ← scanReturn text
  return { parameters, returnType }

/-- What the scanner finds, if nothing follows it. -/
def scanToEnd {α : Type} (scanner : Scan α) : Scan α := do
  let result ← scanner
  if (← remaining text) ≠ 0 then refuse .trailingCharacters
  else return result

/-- What the scanner finds in the whole text. -/
def scanWhole {α : Type} (scanner : Scan α) : Scanner DescriptorError α :=
  mapCause ({ descriptor := text, fault := · }) (scanToEnd text scanner)

end Scans

/-! ### Characters -/

section Following

variable {α : Type} {text : String} {start : Nat} {chars rest : List Char} {c d : Char}

/-- From the position on, the scanner gives the outcome of a reader of characters. -/
abbrev ScansAs (text : String) (start : Nat) (scanner : Scan α)
    (outcome : Except DescriptorFault (α × List Char)) : Prop :=
  Gives (utf8 text).length (Leaves text) start scanner outcome

section Steps

variable {outcome : Except DescriptorFault (α × List Char)}

/-- In front of any next step, the number of bytes that are left can be computed. -/
theorem scansAs_remaining_bind {next : Nat → Scan α}
    (h : ScansAs text start (next ((utf8 text).length - start)) outcome) :
    ScansAs text start (remaining text >>= next) outcome := by
  rintro trace hrange rfl
  rw [runFrom_bind_of_ok (runFrom_remaining trace)]
  exact h trace hrange rfl

/-- In front of any next step, the byte at the position can be computed, if there is one. -/
theorem scansAs_byteHere_bind {next : UInt8 → Scan α} {byte : UInt8}
    (hbyte : (utf8 text)[start]? = some byte) (h : ScansAs text start (next byte) outcome) :
    ScansAs text start (byteHere text >>= next) outcome := by
  rw [byteHere, bind_assoc]
  exact gives_position_bind ((finds_index hbyte).bind_gives h)

end Steps

/-- A character below 128 is passed over where it stands. -/
theorem scansAs_expect (hc : c.toNat < 128) (h : Leaves text start (c :: rest)) :
    ScansAs text start (expect text c) (.ok ((), rest)) := by
  obtain ⟨byte, more, hbyte, hbytes⟩ := h.exists_byte
  have hlt := h.lt_length
  have heq : byte = c.toUInt8 := (eq_toUInt8_iff hc hbytes).mpr rfl
  refine scansAs_remaining_bind ?_
  rw [if_neg (by omega)]
  refine scansAs_byteHere_bind hbyte ?_
  rw [if_neg (not_not.mpr heq)]
  exact gives_advance hlt (h.succ hc)

/-- Where another character stands, or none, `expect` refuses the text. -/
theorem scansAs_expect_of_ne (hc : c.toNat < 128) (h : Leaves text start chars)
    (hne : chars.head? ≠ some c) : ScansAs text start (expect text c) (.error (.expected c)) := by
  refine scansAs_remaining_bind ?_
  cases chars with
  | nil =>
    have hle := h.length_le
    rw [if_pos (by omega)]
    exact gives_refuse start _
  | cons d rest =>
    obtain ⟨byte, more, hbyte, hbytes⟩ := h.exists_byte
    have hlt := h.lt_length
    have hdiffers : byte ≠ c.toUInt8 := by
      intro heq
      exact hne (congrArg some ((eq_toUInt8_iff hc hbytes).mp heq))
    rw [if_neg (by omega)]
    refine scansAs_byteHere_bind hbyte ?_
    rw [if_pos hdiffers]
    exact gives_refuse start _

/-- Looking whether a character stands here compares it with the one that does. -/
theorem scansAs_peek (hc : c.toNat < 128) (h : Leaves text start (d :: rest)) :
    ScansAs text start (peek text c) (.ok (decide (d = c), d :: rest)) := by
  obtain ⟨byte, more, hbyte, hbytes⟩ := h.exists_byte
  have hlt := h.lt_length
  refine scansAs_remaining_bind ?_
  rw [if_neg (by omega)]
  refine scansAs_byteHere_bind hbyte ?_
  rw [decide_eq_decide.mpr (eq_toUInt8_iff hc hbytes)]
  exact gives_pure h _

/-- At the end of the text `peek` refuses it. -/
theorem scansAs_peek_nil (h : Leaves text start []) :
    ScansAs text start (peek text c) (.error .unexpectedEnd) := by
  have hle := h.length_le
  refine scansAs_remaining_bind ?_
  rw [if_pos (by omega)]
  exact gives_refuse start _

/-! ### Types -/

/-- Dimensions are passed over and counted, unless there are too many. -/
theorem scansAs_skipDimensions (h : Leaves text start chars) {dimensions : Nat}
    (hle : dimensions ≤ maxDimensions) :
    ScansAs text start (skipDimensions text dimensions)
      (if dimensions + (chars.takeWhile (· = '[')).length > maxDimensions then
        .error .tooManyDimensions
      else .ok (dimensions + (chars.takeWhile (· = '[')).length, chars.dropWhile (· = '['))) := by
  -- By induction on the characters; the limit is checked bracket by bracket, and at the end for all.
  induction chars generalizing start dimensions with
  | nil =>
    have hend := h.length_le
    rw [skipDimensions]
    refine scansAs_remaining_bind ?_
    rw [if_neg (by omega), if_neg (by simpa using hle)]
    exact gives_pure h dimensions
  | cons c chars ih =>
    obtain ⟨byte, more, hbyte, hbytes⟩ := h.exists_byte
    have hlt := h.lt_length
    rw [skipDimensions]
    refine scansAs_remaining_bind ?_
    rw [if_pos (by omega)]
    refine scansAs_byteHere_bind hbyte ?_
    by_cases hc : c = '['
    · have hbracket : byte = '['.toUInt8 := (eq_toUInt8_iff (by decide) hbytes).mpr hc
      subst hc
      have hlength : (List.takeWhile (· = '[') ('[' :: chars)).length =
          (chars.takeWhile (· = '[')).length + 1 := by simp
      have hdrop : List.dropWhile (· = '[') ('[' :: chars) = chars.dropWhile (· = '[') := by simp
      rw [if_pos hbracket, hlength, hdrop]
      by_cases hlimit : dimensions + 1 > maxDimensions
      · rw [if_pos hlimit, if_pos (by omega)]
        exact gives_refuse start _
      · rw [if_neg hlimit, ← Nat.add_assoc, Nat.add_right_comm]
        exact gives_advance_bind hlt (ih (h.succ (by decide)) (Nat.not_lt.mp hlimit))
    · have hother : byte ≠ '['.toUInt8 := fun heq => hc ((eq_toUInt8_iff (by decide) hbytes).mp heq)
      have htake : List.takeWhile (· = '[') (c :: chars) = [] := by simp [hc]
      have hdrop : List.dropWhile (· = '[') (c :: chars) = c :: chars := by simp [hc]
      rw [if_neg hother, htake, hdrop, List.length_nil, Nat.add_zero, if_neg (Nat.not_lt.mpr hle)]
      exact gives_pure h dimensions

/-- The search goes on to the first byte of a semicolon, whatever the bytes on the way belong to. -/
theorem scansAs_seekSemicolon_of_leaves
    (h : Leaves text (start + (((utf8 text).drop start).takeWhile (· ≠ ';'.toUInt8)).length) rest) :
    ScansAs text start (seekSemicolon text start) (.ok ((), rest)) := by
  -- By induction along the search. A position on the way may lie inside of a character, so nothing
  -- is said of what is left there.
  induction start using seekSemicolon.induct text with
  | case1 start hlt ih =>
    rw [List.drop_eq_getElem_cons hlt] at h
    rw [seekSemicolon, if_pos hlt]
    refine (finds_index (List.getElem?_eq_getElem hlt)).bind_gives ?_
    generalize (utf8 text)[start] = byte at h
    by_cases hbyte : byte ≠ ';'.toUInt8
    · rw [List.takeWhile_cons_of_pos (by simpa using hbyte), List.length_cons,
        ← Nat.add_assoc, Nat.add_right_comm] at h
      rw [if_pos hbyte]
      exact gives_advance_bind hlt (ih h)
    · rw [List.takeWhile_cons_of_neg (by simpa using hbyte)] at h
      rw [if_neg hbyte]
      exact gives_pure h ()
  | case2 start hge =>
    rw [List.drop_eq_nil_of_le (Nat.not_lt.mp hge)] at h
    rw [seekSemicolon, if_neg hge]
    exact gives_pure h ()

/-- Between two characters, the search comes to the first semicolon or to the end. -/
theorem scansAs_seekSemicolon (h : Leaves text start chars) :
    ScansAs text start (seekSemicolon text start) (.ok ((), chars.dropWhile (· ≠ ';'))) := by
  have hparts : chars = chars.takeWhile (· ≠ ';') ++ chars.dropWhile (· ≠ ';') :=
    List.takeWhile_append_dropWhile.symm
  refine scansAs_seekSemicolon_of_leaves ?_
  rw [h.drop_utf8, takeWhile_bytes (by decide)]
  rw [hparts] at h
  exact h.skip

/-- The name of a class is cut out between two characters. -/
theorem scansAs_scanReference (h : Leaves text start ('L' :: chars)) :
    ScansAs text start (scanReference text) (readReference chars) := by
  have hparts : chars = chars.takeWhile (· ≠ ';') ++ chars.dropWhile (· ≠ ';') :=
    List.takeWhile_append_dropWhile.symm
  have hhead : ∀ c rest, chars.dropWhile (· ≠ ';') = c :: rest → c = ';' := by
    intro c rest hrest
    have hnot := List.head?_dropWhile_not (· ≠ ';') chars
    rw [hrest] at hnot
    simpa using hnot
  refine (scansAs_expect (by decide) h).ok_bind fun start h => gives_position_bind ?_
  refine (scansAs_seekSemicolon h).ok_bind fun stop hstop => gives_position_bind ?_
  unfold readReference
  generalize chars.takeWhile (· ≠ ';') = name at hparts ⊢
  generalize chars.dropWhile (· ≠ ';') = behind at hparts hhead hstop ⊢
  cases behind with
  | nil =>
    rw [if_pos hstop.length_le]
    exact gives_refuse stop _
  | cons c rest =>
    have hlt := hstop.lt_length
    obtain rfl := hhead c rest rfl
    rw [hparts] at h
    obtain ⟨front, rfl, rfl, rfl⟩ := h.between hstop
    rw [if_neg (Nat.not_le.mpr hlt)]
    cases name with
    | nil =>
      rw [if_pos (by simp)]
      exact gives_refuse _ _
    | cons d name =>
      have hname : 0 < (String.ofList (d :: name)).utf8ByteSize := by
        rw [← length_utf8, utf8_ofList, List.flatMap_cons, List.length_append,
          String.length_utf8EncodeChar]
        exact Nat.add_pos_left (Char.utf8Size_pos d) _
      rw [if_neg (by rw [String.utf8ByteSize_append]; omega)]
      refine (finds_substring front (String.ofList (d :: name)) _).bind_gives ?_
      exact (gives_advance hlt (hstop.succ (by decide))).map fun _ => _

/-- The letters of primitive types are below 128. -/
theorem ofCode?_eq_none_of_le (h : 128 ≤ c.toNat) : PrimitiveType.ofCode? c = none := by
  cases hcode : PrimitiveType.ofCode? c with
  | none => rfl
  | some type =>
    obtain rfl := PrimitiveType.code_of_ofCode? hcode
    cases type <;> exact absurd h (by decide)

/-- The first byte of a character spells the same primitive type as the character. -/
theorem ofCode?_ofNat_toNat {byte : UInt8} {more : List UInt8}
    (hbytes : String.utf8EncodeChar c = byte :: more) :
    PrimitiveType.ofCode? (Char.ofNat byte.toNat) = PrimitiveType.ofCode? c := by
  by_cases hc : c.toNat < 128
  · rw [utf8EncodeChar_of_lt hc] at hbytes
    rw [← (List.cons.inj hbytes).1, toNat_toUInt8 hc, Char.ofNat_toNat]
  · -- Neither the character nor its first byte is one of the letters.
    have hbyte : 128 ≤ byte.toNat := by
      refine le_of_mem_utf8EncodeChar (Nat.not_lt.mp hc) ?_
      rw [hbytes]
      exact List.mem_cons_self
    have hlt := byte.toNat_lt
    have hnumber : (Char.ofNat byte.toNat).toNat = byte.toNat :=
      toNat_ofNat_of_valid (Or.inl (by omega))
    rw [ofCode?_eq_none_of_le (by omega), ofCode?_eq_none_of_le (Nat.not_lt.mp hc)]

/-- Scanning a type that is no array does what `readElement` does. -/
theorem scansAs_scanElement (h : Leaves text start (c :: rest)) {byte : UInt8} {more : List UInt8}
    (hbytes : String.utf8EncodeChar c = byte :: more) :
    ScansAs text start (scanElement text byte) (readElement (c :: rest)) := by
  have htag : leadingByte c = Char.ofNat byte.toNat := by
    unfold leadingByte
    rw [hbytes]
  rw [scanElement, ofCode?_ofNat_toNat hbytes, readElement.eq_def]
  dsimp only
  cases hcode : PrimitiveType.ofCode? c with
  | some type =>
    have hc : c.toNat < 128 := by
      by_contra hle
      rw [ofCode?_eq_none_of_le (Nat.not_lt.mp hle)] at hcode
      cases hcode
    exact (gives_advance h.lt_length (h.succ hc)).map fun _ => FieldType.primitive type
  | none =>
    by_cases hc : c = 'L'
    · subst hc
      rw [if_pos rfl, if_pos ((eq_toUInt8_iff (by decide) hbytes).mpr rfl)]
      exact scansAs_scanReference h
    · rw [if_neg hc, if_neg fun heq => hc ((eq_toUInt8_iff (by decide) hbytes).mp heq), htag]
      exact gives_refuse start _

/-- Scanning a type does what `readType` does. -/
theorem scansAs_scanType (h : Leaves text start chars) :
    ScansAs text start (scanType text) (readType chars) := by
  have hdimensions := scansAs_skipDimensions h (Nat.zero_le maxDimensions)
  unfold scanType readType
  rw [Nat.zero_add] at hdimensions
  dsimp only
  by_cases hlimit : (chars.takeWhile (· = '[')).length > maxDimensions
  · rw [if_pos hlimit] at hdimensions ⊢
    exact hdimensions.error_bind
  · rw [if_neg hlimit] at hdimensions ⊢
    refine hdimensions.ok_bind fun start h => scansAs_remaining_bind ?_
    cases hbehind : chars.dropWhile (· = '[') with
    | nil =>
      rw [hbehind] at h
      rw [if_pos (Nat.sub_eq_zero_of_le h.length_le)]
      exact gives_refuse start _
    | cons c rest =>
      rw [hbehind] at h
      obtain ⟨byte, more, hbyte, hbytes⟩ := h.exists_byte
      have hlt := h.lt_length
      rw [if_neg (by omega)]
      refine scansAs_byteHere_bind hbyte ?_
      have helement := scansAs_scanElement h hbytes
      generalize readElement (c :: rest) = outcome at helement ⊢
      cases outcome <;> exact helement.map (FieldType.nested _)

/-! ### Methods -/

/-- A turn of the loop scans a type if the parenthesis is not closed here. -/
theorem scansAs_scanParameter (h : Leaves text start (c :: rest)) (hc : c ≠ ')')
    (types : List FieldType) :
    ScansAs text start (scanParameter text types)
      ((readType (c :: rest)).map fun found => (.inl (types ++ [found.1]), found.2)) := by
  refine (scansAs_peek (by decide) h).ok_bind fun start h => ?_
  rw [if_neg (by simpa using hc)]
  exact (scansAs_scanType h).map fun type => Sum.inl (types ++ [type])

/-- The loop finds the types up to the closing parenthesis, behind those that it starts with. -/
theorem scansAs_loop (h : Leaves text start chars) (types : List FieldType) :
    ScansAs text start
      (do
        let found ← loop (scanParameter text) proceeds_scanParameter types
        expect text ')'
        return found)
      ((readParameters chars).map fun found => (types ++ found.1, found.2)) := by
  -- By induction on the number of characters, of which every turn but the last one takes some.
  induction hlength : chars.length using Nat.strongRecOn generalizing chars types start with
  | _ length ih =>
  rw [loop_eq, bind_assoc]
  match chars with
  | [] =>
    have hturn : ScansAs text start (scanParameter text types) (.error .unexpectedEnd) :=
      (scansAs_peek_nil h).error_bind
    rw [readParameters.eq_def]
    exact hturn.error_bind
  | c :: tail =>
    by_cases hc : c = ')'
    · subst hc
      have hturn : ScansAs text start (scanParameter text types) (.ok (.inr types, ')' :: tail)) :=
        (scansAs_peek (by decide) h).ok_bind fun stop h => gives_pure h _
      rw [readParameters_close]
      refine hturn.ok_bind fun start h => (scansAs_expect (by decide) h).ok_bind fun stop h => ?_
      simpa [Except.map] using gives_pure h types
    · have hturn := scansAs_scanParameter h hc types
      rw [readParameters_cons hc]
      cases hread : readType (c :: tail) with
      | error fault =>
        rw [hread] at hturn
        exact hturn.error_bind
      | ok found =>
        obtain ⟨type, rest⟩ := found
        rw [hread] at hturn
        refine hturn.ok_bind fun start h => ?_
        have hlt : rest.length < length := hlength ▸ readType_length_lt hread
        have hrest := ih rest.length hlt h (types ++ [type]) rfl
        dsimp only
        cases hothers : readParameters rest with
        | error fault =>
          rw [hothers] at hrest
          exact hrest
        | ok others =>
          rw [hothers] at hrest
          simpa [Except.map] using hrest

/-- Scanning parameters does what `readParameters` does. -/
theorem scansAs_scanParameters (h : Leaves text start chars) :
    ScansAs text start (scanParameters text) (readParameters chars) := by
  have hloop := scansAs_loop h []
  have hsame : (readParameters chars).map (fun found => ([] ++ found.1, found.2)) =
      readParameters chars := by
    cases readParameters chars <;> rfl
  rwa [hsame] at hloop

/-- Scanning the result of a method does what `readReturn` does. -/
theorem scansAs_scanReturn (h : Leaves text start chars) :
    ScansAs text start (scanReturn text) (readReturn chars) := by
  cases chars with
  | nil => exact (scansAs_peek_nil h).error_bind
  | cons c rest =>
    refine (scansAs_peek (by decide) h).ok_bind fun start h => ?_
    by_cases hc : c = 'V'
    · subst hc
      rw [if_pos (by simp), readReturn]
      exact (gives_advance h.lt_length (h.succ (by decide))).ok_bind fun stop h => gives_pure h _
    · rw [if_neg (by simpa using hc), readReturn_cons hc]
      exact (scansAs_scanType h).map ReturnType.value

/-- Scanning the types of a method does what `readMethod` does. -/
theorem scansAs_scanMethod (h : Leaves text start chars) :
    ScansAs text start (scanMethod text) (readMethod chars) := by
  unfold readMethod
  split
  · next chars =>
    refine (scansAs_expect (by decide) h).ok_bind fun start h => ?_
    refine (scansAs_scanParameters h).bind fun parameters rest start _ h => ?_
    exact (scansAs_scanReturn h).bind fun returnType rest stop _ h => gives_pure h _
  · next hchars =>
    have hne : chars.head? ≠ some '(' := by
      intro hhead
      obtain ⟨rest, hrest⟩ := List.head?_eq_some_iff.mp hhead
      exact hchars rest hrest
    exact (scansAs_expect_of_ne (by decide) h hne).error_bind

end Following

/-! ### Whole texts -/

/-- A scanner that does what a reader does from the start of a text on computes what the reader finds
in the whole text. -/
theorem computes_scanWhole {α : Type} {text : String} {scanner : Scan α} {read : Step α}
    (h : ScansAs text 0 scanner (read text.toList)) :
    Computes text.utf8ByteSize (scanWhole text scanner) (whole read text) := by
  unfold whole
  cases hread : read text.toList with
  | error fault =>
    rw [hread] at h
    have herror : ScansAs text 0 (scanToEnd text scanner) (.error fault) := h.error_bind
    exact herror.computes.mapCause _
  | ok found =>
    obtain ⟨result, left⟩ := found
    rw [hread] at h
    cases left with
    | nil =>
      have hend : ScansAs text 0 (scanToEnd text scanner) (.ok (result, [])) := by
        refine h.ok_bind fun stop h => scansAs_remaining_bind ?_
        rw [if_neg (not_not.mpr (Nat.sub_eq_zero_of_le h.length_le))]
        exact gives_pure h result
      exact hend.computes.mapCause _
    | cons c rest =>
      have htrailing : ScansAs text 0 (scanToEnd text scanner) (.error .trailingCharacters) := by
        refine h.ok_bind fun stop h => scansAs_remaining_bind ?_
        have hlt := h.lt_length
        rw [if_pos (by omega)]
        exact gives_refuse stop _
      exact htrailing.computes.mapCause _

end Descriptor

/-- Scans the type that a text spells. -/
def FieldType.scan (text : String) : Scanner DescriptorError FieldType :=
  Descriptor.scanWhole text (Descriptor.scanType text)

/-- Scans the types of a method that a text spells. -/
def MethodDescriptor.scan (text : String) : Scanner DescriptorError MethodDescriptor :=
  Descriptor.scanWhole text (Descriptor.scanMethod text)

/-- **The scanner finds in a text the type that `FieldType.parse` does**, and all its accesses are
in range. -/
theorem FieldType.computes_scan (text : String) :
    Scanner.Computes text.utf8ByteSize (scan text) (parse text) :=
  Descriptor.computes_scanWhole (Descriptor.scansAs_scanType (Text.leaves_zero text))

-- The search passes a position inside of the name, which is cut out as a whole.
example :
    let trace := ((FieldType.scan "[Lé;").runFrom {}).2
    trace.path = [0, 1, 2, 3, 4, 5] ∧ trace.accesses.getLast? = some (.substring "[Lé;" 2 4) := by
  cbv

/-- **The scanner finds in a text the types of a method that `MethodDescriptor.parse` does**, and
all its accesses are in range. -/
theorem MethodDescriptor.computes_scan (text : String) :
    Scanner.Computes text.utf8ByteSize (scan text) (parse text) :=
  Descriptor.computes_scanWhole (Descriptor.scansAs_scanMethod (Text.leaves_zero text))

end NativeHeaders
