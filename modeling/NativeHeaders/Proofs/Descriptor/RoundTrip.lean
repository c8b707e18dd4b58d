import Mathlib.Data.List.TakeWhile
import NativeHeaders.Descriptor.Reader
import NativeHeaders.Proofs.Text.Segments

/-! # Descriptors written and read back

`readType` and `readParameters` undo the spelling of types: on the types that a descriptor can hold
(`FieldType.WellFormed`) a reader takes exactly the characters of the spelling, whatever stands
behind them, and it gives no other types. Two lists of such types are therefore spelled alike only
if they are equal (`spellings_inj`). -/

namespace NativeHeaders

namespace FieldType

/-- The class at the core of the type, if there is one, has a name that a semicolon can end. -/
def NamesClass : FieldType → Prop
  | .primitive _ => True
  | .object className => className ≠ "" ∧ ';' ∉ className.toList
  | .array element => element.NamesClass

/-- The types that descriptors spell: the name of a class is not empty and holds no semicolon, and
there are at most 255 array dimensions. -/
structure WellFormed (type : FieldType) : Prop where
  /-- The class is named. -/
  namesClass : type.NamesClass
  /-- There are not too many dimensions. -/
  dimensions_le : type.dimensions ≤ Descriptor.maxDimensions

/-- The type is no array. -/
def IsElement : FieldType → Prop
  | .array _ => False
  | _ => True

/-! ### Types as arrays of elements -/

/-- The innermost element of a type is no array. -/
theorem isElement_innermost (type : FieldType) : type.innermost.IsElement := by
  induction type with
  | primitive => trivial
  | object => trivial
  | array element ih => exact ih

/-- A type is its innermost element in as many arrays as it has dimensions. -/
theorem nested_innermost (type : FieldType) : type.innermost.nested type.dimensions = type := by
  induction type with
  | primitive => rfl
  | object => rfl
  | array element ih =>
    show array (element.innermost.nested element.dimensions) = array element
    rw [ih]

/-- An element in a number of arrays has this number of dimensions. -/
theorem dimensions_nested (count : Nat) {type : FieldType} (h : type.IsElement) :
    (type.nested count).dimensions = count := by
  induction count with
  | zero => cases type <;> first | rfl | exact h.elim
  | succ count ih => exact congrArg (· + 1) ih

/-- Arrays name a class exactly if their elements do. -/
theorem namesClass_nested (count : Nat) (type : FieldType) :
    (type.nested count).NamesClass ↔ type.NamesClass := by
  induction count with
  | zero => rfl
  | succ count ih => exact ih

/-- The innermost element of a type names a class exactly if the type does. -/
theorem namesClass_innermost (type : FieldType) : type.innermost.NamesClass ↔ type.NamesClass := by
  rw [← namesClass_nested type.dimensions, nested_innermost]

/-! ### Spellings as lists of characters -/

/-- The characters that spell the type. -/
def spelling (type : FieldType) : List Char := type.descriptor.toList

/-- A primitive type is spelled with its letter. -/
@[simp] theorem spelling_primitive (type : PrimitiveType) :
    (primitive type).spelling = [type.code] := by
  simp [spelling, descriptor, Char.toString]

/-- A class is spelled by its name between `L` and a semicolon. -/
@[simp] theorem spelling_object (className : String) :
    (object className).spelling = 'L' :: (className.toList ++ [';']) := by
  simp [spelling, descriptor]

/-- An array is spelled with a bracket in front of its element. -/
@[simp] theorem spelling_array (element : FieldType) :
    (array element).spelling = '[' :: element.spelling := by
  simp [spelling, descriptor]

/-- Nested arrays are spelled with a bracket for each dimension. -/
theorem spelling_nested (count : Nat) (type : FieldType) :
    (type.nested count).spelling = List.replicate count '[' ++ type.spelling := by
  induction count with
  | zero => rfl
  | succ count ih => rw [nested, spelling_array, ih, List.replicate_succ, List.cons_append]

/-- The spelling of an element starts with a letter, and so does not go on with dimensions. -/
theorem spelling_of_isElement {type : FieldType} (h : type.IsElement) :
    ∃ c rest, type.spelling = c :: rest ∧ c.isAlpha = true ∧ c ≠ '[' := by
  cases type with
  | primitive type =>
    refine ⟨type.code, [], spelling_primitive type, ?_, ?_⟩
    · cases type <;> decide
    · cases type <;> decide
  | object className => exact ⟨_, _, spelling_object className, by decide, by decide⟩
  | array => exact h.elim

/-- Every type is spelled with some character. -/
theorem spelling_ne_nil (type : FieldType) : type.spelling ≠ [] := by
  cases type <;> simp

/-- The spelling of a type starts with a letter or with a bracket. -/
theorem head?_spelling (type : FieldType) :
    ∀ c ∈ type.spelling.head?, c.isAlpha = true ∨ c = '[' := by
  cases type with
  | primitive type =>
    intro c hc
    obtain rfl : type.code = c := by simpa using hc
    exact Or.inl (by cases type <;> decide)
  | object => simp
  | array => simp

end FieldType

namespace Descriptor

/-! ### Readers of a single type -/

/-- The name of a class is read up to the semicolon. -/
theorem readReference_append {className : String} (hne : className ≠ "")
    (hsemicolon : ';' ∉ className.toList) (rest : List Char) :
    readReference (className.toList ++ ';' :: rest) = .ok (.object className, rest) := by
  have hname : ∀ c ∈ className.toList, decide (c ≠ ';') = true := by
    intro c hc
    rw [decide_eq_true_iff]
    rintro rfl
    exact hsemicolon hc
  have hchars : className.toList ≠ [] := by simpa using hne
  unfold readReference
  rw [Text.dropWhile_append_cons hname (by decide), Text.takeWhile_append_cons hname (by decide)]
  dsimp only
  split
  · next h => exact absurd h hchars
  · next h => rw [String.ofList_toList]

/-- What was read as the name of a class is not empty and holds no semicolon. -/
theorem eq_append_of_readReference {chars rest : List Char} {type : FieldType}
    (h : readReference chars = .ok (type, rest)) :
    ∃ className, type = .object className ∧ className ≠ "" ∧ ';' ∉ className.toList ∧
      chars = className.toList ++ ';' :: rest := by
  unfold readReference at h
  split at h
  · cases h
  · next c tail hdrop =>
    split at h
    · cases h
    · next hne =>
      cases h
      -- The name ends at the first character that is none of it.
      have hc : c = ';' := by
        have hhead := List.head?_dropWhile_not (fun c => decide (c ≠ ';')) chars
        rw [hdrop] at hhead
        simpa using hhead
      have hsplit := List.takeWhile_append_dropWhile (p := fun c => decide (c ≠ ';')) (l := chars)
      refine ⟨_, rfl, ?_, ?_, ?_⟩
      · simpa using hne
      · rw [String.toList_ofList]
        intro hmem
        simpa using List.mem_takeWhile_imp hmem
      · rw [String.toList_ofList]
        exact hsplit.symm.trans (by rw [hdrop, hc])

/-- The spelling of an element is read as the element. -/
theorem readElement_append {type : FieldType} (helement : type.IsElement) (hname : type.NamesClass)
    (rest : List Char) : readElement (type.spelling ++ rest) = .ok (type, rest) := by
  cases type with
  | primitive type =>
    rw [FieldType.spelling_primitive, List.singleton_append, readElement]
    simp
  | object className =>
    rw [FieldType.spelling_object, List.cons_append, List.append_assoc, List.singleton_append,
      readElement]
    exact readReference_append hname.1 hname.2 rest
  | array => exact helement.elim

/-- What was read as an element was spelled. -/
theorem eq_append_of_readElement {chars rest : List Char} {type : FieldType}
    (h : readElement chars = .ok (type, rest)) :
    type.IsElement ∧ type.NamesClass ∧ chars = type.spelling ++ rest := by
  unfold readElement at h
  split at h
  · cases h
  · next c tail =>
    split at h
    · next primitive hcode =>
      cases h
      refine ⟨trivial, trivial, ?_⟩
      rw [FieldType.spelling_primitive, PrimitiveType.code_of_ofCode? hcode, List.singleton_append]
    · split at h
      · next hc =>
        obtain ⟨className, rfl, hne, hsemicolon, rfl⟩ := eq_append_of_readReference h
        refine ⟨trivial, ⟨hne, hsemicolon⟩, ?_⟩
        rw [FieldType.spelling_object, hc, List.cons_append, List.append_assoc,
          List.singleton_append]
      · cases h

/-- The spelling of a type is read as the type. -/
theorem readType_append {type : FieldType} (h : type.WellFormed) (rest : List Char) :
    readType (type.spelling ++ rest) = .ok (type, rest) := by
  have helement := type.isElement_innermost
  have hname : type.innermost.NamesClass := (FieldType.namesClass_innermost type).2 h.namesClass
  obtain ⟨c, tail, hspelling, -, hc⟩ := FieldType.spelling_of_isElement helement
  have hbrackets : ∀ a ∈ List.replicate type.dimensions '[', decide (a = '[') = true := by
    intro a ha
    rw [List.eq_of_mem_replicate ha]
    rfl
  have hchars : type.spelling ++ rest =
      List.replicate type.dimensions '[' ++ c :: (tail ++ rest) := by
    rw [← List.cons_append, ← hspelling, ← List.append_assoc, ← FieldType.spelling_nested,
      FieldType.nested_innermost]
  have hstop : decide (c = '[') = false := by simpa using hc
  rw [readType, hchars, Text.takeWhile_append_cons hbrackets hstop,
    Text.dropWhile_append_cons hbrackets hstop, List.length_replicate,
    if_neg (Nat.not_lt.2 h.dimensions_le), ← List.cons_append, ← hspelling,
    readElement_append helement hname]
  exact congrArg (fun type => Except.ok (type, rest)) type.nested_innermost

/-- What was read as a type was spelled. -/
theorem eq_append_of_readType {chars rest : List Char} {type : FieldType}
    (h : readType chars = .ok (type, rest)) : type.WellFormed ∧ chars = type.spelling ++ rest := by
  unfold readType at h
  dsimp only at h
  split at h
  · cases h
  · next hle =>
    split at h
    · cases h
    · next element tail hread =>
      cases h
      obtain ⟨helement, hname, hdrop⟩ := eq_append_of_readElement hread
      -- As many brackets were cut off as there are dimensions.
      have hbrackets : chars.takeWhile (fun c => decide (c = '[')) =
          List.replicate (chars.takeWhile (fun c => decide (c = '['))).length '[' := by
        refine List.eq_replicate_of_mem fun a ha => ?_
        simpa using List.mem_takeWhile_imp ha
      refine ⟨⟨(FieldType.namesClass_nested _ _).2 hname, ?_⟩, ?_⟩
      · rw [FieldType.dimensions_nested _ helement]
        exact Nat.not_lt.1 hle
      · rw [FieldType.spelling_nested, ← hbrackets, List.append_assoc, ← hdrop,
          List.takeWhile_append_dropWhile]

/-! ### Readers of lists of types -/

/-- The spellings of types one after the other. -/
def spellings (types : List FieldType) : List Char := types.flatMap FieldType.spelling

/-- The first type is spelled first. -/
@[simp] theorem spellings_cons (type : FieldType) (types : List FieldType) :
    spellings (type :: types) = type.spelling ++ spellings types := rfl

/-- A spelling does not start with the parenthesis that ends the parameters. -/
theorem head?_spelling_ne (type : FieldType) (rest : List Char) :
    ∃ c tail, type.spelling ++ rest = c :: tail ∧ c ≠ ')' := by
  cases hspelling : type.spelling with
  | nil => exact absurd hspelling type.spelling_ne_nil
  | cons c tail =>
    refine ⟨c, tail ++ rest, rfl, ?_⟩
    rintro rfl
    rcases type.head?_spelling ')' (by rw [hspelling]; rfl) with h | h
    · exact absurd h (by decide)
    · exact absurd h (by decide)

/-- Anything but the closing parenthesis is read as a type and further parameters. -/
theorem readParameters_cons {c : Char} (hc : c ≠ ')') (tail : List Char) :
    readParameters (c :: tail) =
      match readType (c :: tail) with
      | .error fault => .error fault
      | .ok (type, rest) =>
        (readParameters rest).map fun (types, rest) => (type :: types, rest) := by
  rw [readParameters.eq_def]
  split
  · next heq => cases heq
  · next heq =>
    cases heq
    exact absurd rfl hc
  · next heq =>
    cases heq
    split
    · next hread => rw [hread]
    · next hread =>
      dsimp only
      rw [hread]
      split <;> simp_all [Except.map]

/-- A closing parenthesis ends the parameters. -/
theorem readParameters_close (rest : List Char) :
    readParameters (')' :: rest) = .ok ([], rest) := by
  rw [readParameters.eq_def]
  rfl

/-- The spellings of types in front of a closing parenthesis are read as the types. -/
theorem readParameters_append {types : List FieldType} (h : ∀ type ∈ types, type.WellFormed)
    (rest : List Char) : readParameters (spellings types ++ ')' :: rest) = .ok (types, rest) := by
  induction types with
  | nil => exact readParameters_close rest
  | cons type types ih =>
    obtain ⟨htype, htypes⟩ := List.forall_mem_cons.1 h
    obtain ⟨c, tail, hchars, hc⟩ := head?_spelling_ne type (spellings types ++ ')' :: rest)
    rw [spellings_cons, List.append_assoc, hchars, readParameters_cons hc, ← hchars,
      readType_append htype]
    show (readParameters (spellings types ++ ')' :: rest)).map _ = _
    rw [ih htypes]
    rfl

/-- What was read as parameters was spelled, up to the closing parenthesis. -/
theorem eq_append_of_readParameters {chars rest : List Char} {types : List FieldType}
    (h : readParameters chars = .ok (types, rest)) :
    (∀ type ∈ types, type.WellFormed) ∧ chars = spellings types ++ ')' :: rest := by
  -- By induction on the number of characters, of which every type takes some.
  induction hlength : chars.length using Nat.strongRecOn generalizing chars types with
  | _ length ih =>
  match chars with
  | [] => simp [readParameters.eq_def] at h
  | c :: tail =>
    by_cases hc : c = ')'
    · subst hc
      rw [readParameters_close] at h
      cases h
      exact ⟨by simp, rfl⟩
    · rw [readParameters_cons hc] at h
      split at h
      · cases h
      · next type middle hread =>
        cases hrest : readParameters middle with
        | error => rw [hrest] at h; cases h
        | ok result =>
          rw [hrest] at h
          cases h
          obtain ⟨htype, hchars⟩ := eq_append_of_readType hread
          obtain ⟨hothers, hmiddle⟩ :=
            ih _ (by rw [← hlength]; exact readType_length_lt hread) hrest rfl
          refine ⟨List.forall_mem_cons.2 ⟨htype, hothers⟩, ?_⟩
          rw [hchars, hmiddle, spellings_cons, List.append_assoc]

/-- Lists of types are spelled alike only if they are equal. -/
theorem spellings_inj {first second : List FieldType} (hfirst : ∀ type ∈ first, type.WellFormed)
    (hsecond : ∀ type ∈ second, type.WellFormed) :
    spellings first = spellings second ↔ first = second := by
  constructor
  · intro h
    have hread := readParameters_append hfirst []
    rw [h, readParameters_append hsecond] at hread
    cases hread
    rfl
  · intro h
    rw [h]

end Descriptor

namespace MethodDescriptor

open Descriptor

/-- The descriptors of the parameters are their spellings, one behind the other. -/
theorem toList_parameterDescriptors (method : MethodDescriptor) :
    method.parameterDescriptors.toList = spellings method.parameters := by
  rw [parameterDescriptors, String.toList_join, List.flatMap_map]
  rfl

end MethodDescriptor

end NativeHeaders
