import NativeHeaders.Descriptor

/-! # Reading descriptors

`FieldType.parse` and `MethodDescriptor.parse` read what `FieldType.descriptor` and
`MethodDescriptor.descriptor` write. A reader takes characters off the front and gives the type it found
with the characters behind it, or the first fault; every type takes at least one character
(`readType_length_lt`). Array types have at most 255 dimensions. -/

namespace NativeHeaders

/-- What is wrong with the text of a descriptor. -/
inductive DescriptorFault where
  /-- Another character was required. -/
  | expected (c : Char)
  /-- The text ends where a type is required. -/
  | unexpectedEnd
  /-- Something follows the descriptor. -/
  | trailingCharacters
  /-- There are more array dimensions than a type may have. -/
  | tooManyDimensions
  /-- No type starts with the byte, given as the character of the same number. -/
  | unexpectedTag (tag : Char)
  /-- The name of a class has no end. -/
  | unterminatedReference
  /-- The name of a class has no characters. -/
  | emptyClassName
deriving DecidableEq, Repr

/-- A text that is no descriptor, with its first fault. -/
structure DescriptorError where
  /-- The text. -/
  descriptor : String
  /-- What is wrong with it. -/
  fault : DescriptorFault
deriving DecidableEq, Repr

namespace Descriptor

/-- The most array dimensions a type may have. -/
def maxDimensions : Nat := 255

end Descriptor

/-- The words for the fault. -/
def DescriptorFault.reason : DescriptorFault → String
  | .expected c => s!"expected '{c}'"
  | .unexpectedEnd => "unexpected end"
  | .trailingCharacters => "trailing characters"
  | .tooManyDimensions => s!"more than {Descriptor.maxDimensions} array dimensions"
  | .unexpectedTag tag => s!"unexpected tag '{tag}'"
  | .unterminatedReference => "unterminated reference"
  | .emptyClassName => "empty class name"

/-- The sentence that reports the error. -/
def DescriptorError.message (error : DescriptorError) : String :=
  s!"malformed descriptor '{error.descriptor}': {error.fault.reason}"

namespace Descriptor

/-- The characters behind what was read, or the first fault. -/
abbrev Step (α : Type) := List Char → Except DescriptorFault (α × List Char)

/-- The character whose number is the first byte of `c` in UTF-8. -/
def leadingByte (c : Char) : Char :=
  match String.utf8EncodeChar c with
  | [] => c
  | byte :: _ => Char.ofNat byte.toNat

/-- Reads the name of a class up to and with the semicolon. -/
def readReference : Step FieldType := fun chars =>
  match chars.dropWhile (· ≠ ';') with
  | [] => .error .unterminatedReference
  | _ :: rest =>
    match chars.takeWhile (· ≠ ';') with
    | [] => .error .emptyClassName
    | name => .ok (.object (String.ofList name), rest)

/-- Reads a type that is no array. -/
def readElement : Step FieldType
  | [] => .error .unexpectedEnd
  | c :: rest =>
    match PrimitiveType.ofCode? c with
    | some type => .ok (.primitive type, rest)
    | none => if c = 'L' then readReference rest else .error (.unexpectedTag (leadingByte c))

/-- Reads a type. -/
def readType : Step FieldType := fun chars =>
  let dimensions := (chars.takeWhile (· = '[')).length
  if dimensions > maxDimensions then .error .tooManyDimensions
  else match readElement (chars.dropWhile (· = '[')) with
    | .error fault => .error fault
    | .ok (type, rest) => .ok (type.nested dimensions, rest)

/-- Dropping characters from the front leaves no more of them. -/
theorem length_dropWhile_le (p : Char → Bool) (chars : List Char) :
    (chars.dropWhile p).length ≤ chars.length :=
  (List.dropWhile_sublist p).length_le

/-- Reading the name of a class uses up characters, so that readers that call `readReference` end.
-/
theorem readReference_length_lt {chars rest : List Char} {type : FieldType}
    (h : readReference chars = .ok (type, rest)) : rest.length < chars.length := by
  unfold readReference at h
  have hle := length_dropWhile_le (· ≠ ';') chars
  split at h
  · cases h
  · next tail hdrop =>
    split at h
    · cases h
    · cases h
      rw [hdrop] at hle
      simp only [List.length_cons] at hle
      omega

/-- Reading a type that is no array uses up characters. -/
theorem readElement_length_lt {chars rest : List Char} {type : FieldType}
    (h : readElement chars = .ok (type, rest)) : rest.length < chars.length := by
  unfold readElement at h
  split at h
  · cases h
  · split at h
    · cases h
      simp
    · split at h
      · have := readReference_length_lt h
        simp only [List.length_cons]
        omega
      · cases h

/-- A type takes at least one character. -/
theorem readType_length_lt {chars rest : List Char} {type : FieldType}
    (h : readType chars = .ok (type, rest)) : rest.length < chars.length := by
  unfold readType at h
  dsimp only at h
  split at h
  · cases h
  · split at h
    · cases h
    · next hread =>
      cases h
      exact Nat.lt_of_lt_of_le (readElement_length_lt hread) (length_dropWhile_le _ _)

/-- Reads types up to and with the closing parenthesis. -/
def readParameters (chars : List Char) : Except DescriptorFault (List FieldType × List Char) :=
  match chars with
  | [] => .error .unexpectedEnd
  | ')' :: rest => .ok ([], rest)
  | c :: tail =>
    match hread : readType (c :: tail) with
    | .error fault => .error fault
    | .ok (type, rest) =>
      have := readType_length_lt hread
      match readParameters rest with
      | .error fault => .error fault
      | .ok (types, rest) => .ok (type :: types, rest)
termination_by chars.length
decreasing_by simp only [List.length_cons] at *; omega

/-- Reads the result of a method. -/
def readReturn : Step ReturnType
  | [] => .error .unexpectedEnd
  | 'V' :: rest => .ok (.void, rest)
  | c :: tail =>
    match readType (c :: tail) with
    | .error fault => .error fault
    | .ok (type, rest) => .ok (.value type, rest)

/-- Reads the parameters in parentheses and the result. -/
def readMethod : Step MethodDescriptor
  | '(' :: chars => do
    let (parameters, chars) ← readParameters chars
    let (returnType, chars) ← readReturn chars
    return ({ parameters, returnType }, chars)
  | _ => .error (.expected '(')

/-- What the reader finds, if nothing follows it. -/
def whole {α : Type} (read : Step α) (text : String) : Except DescriptorError α :=
  match read text.toList with
  | .error fault => .error { descriptor := text, fault }
  | .ok (result, []) => .ok result
  | .ok (_, _ :: _) => .error { descriptor := text, fault := .trailingCharacters }

end Descriptor

/-- The type a text spells. -/
def FieldType.parse (text : String) : Except DescriptorError FieldType :=
  Descriptor.whole Descriptor.readType text

/-- The types of a method that a text spells. -/
def MethodDescriptor.parse (text : String) : Except DescriptorError MethodDescriptor :=
  Descriptor.whole Descriptor.readMethod text

end NativeHeaders
