import NativeHeaders.Proofs.Descriptor.RoundTrip
import NativeHeaders.Proofs.Fallible

/-! # The grammar of descriptors

The texts that are read as types are exactly the spellings of the types that descriptors can hold,
and each of them is read as the type it spells (`FieldType.parse_eq_ok`,
`MethodDescriptor.parse_eq_ok`). The readers take a prefix of what stands in front of them; a whole
text is read if nothing is left behind it. -/

namespace NativeHeaders

namespace Descriptor

/-- A whole text is read if the reader leaves nothing. -/
theorem whole_eq_ok {α : Type} {read : Step α} {text : String} {result : α} :
    whole read text = .ok result ↔ read text.toList = .ok (result, []) := by
  unfold whole
  split
  · next hread => simp [hread]
  · next hread => simp [hread]
  · next hread => simp [hread]

/-- What is read as a type up to the end is its spelling. -/
theorem readType_eq_ok {chars : List Char} {type : FieldType} :
    readType chars = .ok (type, []) ↔ type.WellFormed ∧ type.spelling = chars := by
  constructor
  · intro h
    obtain ⟨htype, hchars⟩ := eq_append_of_readType h
    exact ⟨htype, by rw [hchars, List.append_nil]⟩
  · rintro ⟨htype, rfl⟩
    simpa using readType_append htype []

end Descriptor

namespace FieldType

/-- A text is read as a type exactly if it spells it. -/
theorem parse_eq_ok {text : String} {type : FieldType} :
    FieldType.parse text = .ok type ↔ type.WellFormed ∧ type.descriptor = text := by
  rw [FieldType.parse, Descriptor.whole_eq_ok, Descriptor.readType_eq_ok, spelling,
    String.toList_inj]

end FieldType

namespace ReturnType

/-- The results that descriptors spell: nothing, or a value of a type that they spell. -/
def WellFormed : ReturnType → Prop
  | .void => True
  | .value type => type.WellFormed

/-- The characters that spell the result. -/
def spelling (result : ReturnType) : List Char := result.descriptor.toList

/-- No value is spelled `V`. -/
@[simp] theorem spelling_void : void.spelling = ['V'] := by decide

/-- A result that is a value is spelled as its type. -/
@[simp] theorem spelling_value (type : FieldType) : (value type).spelling = type.spelling := rfl

end ReturnType

namespace Descriptor

/-- The spelling of a type does not start with the letter for no value. -/
theorem head?_spelling_ne_void (type : FieldType) (rest : List Char) :
    ∃ c tail, type.spelling ++ rest = c :: tail ∧ c ≠ 'V' := by
  cases type with
  | primitive type =>
    refine ⟨type.code, rest, by simp, ?_⟩
    cases type <;> decide
  | object className =>
    exact ⟨'L', _, by rw [FieldType.spelling_object, List.cons_append], by decide⟩
  | array element => exact ⟨'[', _, by rw [FieldType.spelling_array, List.cons_append], by decide⟩

/-- Anything but the letter for no value is read as a type. -/
theorem readReturn_cons {c : Char} (hc : c ≠ 'V') (tail : List Char) :
    readReturn (c :: tail) =
      (readType (c :: tail)).map fun (type, rest) => (.value type, rest) := by
  rw [readReturn.eq_def]
  split
  · next heq => cases heq
  · next heq =>
    cases heq
    exact absurd rfl hc
  · next heq =>
    cases heq
    cases readType (c :: tail) <;> rfl

/-- What is read as a result up to the end is its spelling. -/
theorem readReturn_eq_ok {chars : List Char} {result : ReturnType} :
    readReturn chars = .ok (result, []) ↔ result.WellFormed ∧ result.spelling = chars := by
  constructor
  · intro h
    match chars with
    | [] => cases h
    | c :: tail =>
      by_cases hc : c = 'V'
      · subst hc
        cases h
        exact ⟨trivial, by simp⟩
      · rw [readReturn_cons hc] at h
        cases hread : readType (c :: tail) with
        | error fault =>
          rw [hread] at h
          cases h
        | ok found =>
          obtain ⟨type, rest⟩ := found
          rw [hread] at h
          cases h
          exact readType_eq_ok.mp hread
  · rintro ⟨hresult, rfl⟩
    cases result with
    | void => rw [ReturnType.spelling_void, readReturn]
    | value type =>
      obtain ⟨c, tail, hchars, hc⟩ := head?_spelling_ne_void type []
      rw [List.append_nil] at hchars
      rw [ReturnType.spelling_value, hchars, readReturn_cons hc, ← hchars,
        readType_eq_ok.mpr ⟨hresult, rfl⟩]
      rfl

end Descriptor

namespace MethodDescriptor

open Descriptor

/-- The types of a method that descriptors spell. -/
structure WellFormed (method : MethodDescriptor) : Prop where
  /-- Descriptors spell the types of the parameters. -/
  parameters : ∀ type ∈ method.parameters, type.WellFormed
  /-- Descriptors spell the result. -/
  returnType : method.returnType.WellFormed

/-- The descriptor of a method spells its parameters in parentheses, and behind them its result. -/
theorem toList_descriptor (method : MethodDescriptor) :
    method.descriptor.toList =
      '(' :: (spellings method.parameters ++ ')' :: method.returnType.spelling) := by
  simp [descriptor, toList_parameterDescriptors, ReturnType.spelling]

/-- What is read as the types of a method up to the end spells them. -/
theorem readMethod_eq_ok {chars : List Char} {method : MethodDescriptor} :
    readMethod chars = .ok (method, []) ↔ method.WellFormed ∧ method.descriptor.toList = chars := by
  rw [toList_descriptor]
  constructor
  · intro h
    unfold readMethod at h
    split at h
    · obtain ⟨⟨parameters, middle⟩, hparameters, h⟩ := Fallible.bind_eq_ok.mp h
      obtain ⟨⟨returnType, last⟩, hreturn, h⟩ := Fallible.bind_eq_ok.mp h
      cases h
      obtain ⟨hwell, rfl⟩ := eq_append_of_readParameters hparameters
      obtain ⟨hresult, rfl⟩ := readReturn_eq_ok.mp hreturn
      exact ⟨⟨hwell, hresult⟩, rfl⟩
    · cases h
  · rintro ⟨⟨hparameters, hresult⟩, rfl⟩
    rw [readMethod, readParameters_append hparameters]
    show readReturn method.returnType.spelling >>= _ = _
    rw [readReturn_eq_ok.mpr ⟨hresult, rfl⟩]
    rfl

/-- A text is read as the types of a method exactly if it spells them. -/
theorem parse_eq_ok {text : String} {method : MethodDescriptor} :
    MethodDescriptor.parse text = .ok method ↔ method.WellFormed ∧ method.descriptor = text := by
  rw [MethodDescriptor.parse, whole_eq_ok, readMethod_eq_ok, String.toList_inj]

/-- Parameters that descriptors can hold are determined by their spelling. -/
theorem parameters_eq_of_parameterDescriptors_eq {first second : MethodDescriptor}
    (hfirst : ∀ type ∈ first.parameters, type.WellFormed)
    (hsecond : ∀ type ∈ second.parameters, type.WellFormed)
    (h : first.parameterDescriptors = second.parameterDescriptors) :
    first.parameters = second.parameters := by
  rw [← spellings_inj hfirst hsecond, ← toList_parameterDescriptors, h,
    toList_parameterDescriptors]

end MethodDescriptor

namespace Descriptor

/-- **What descriptors spell.** A text is read as a type, or as the types of a method, exactly if
these have at most 255 dimensions and class names that a semicolon can end, and print as the text.
So parameters that print alike are equal. -/
theorem parse_eq_ok_iff_descriptor_eq :
    (∀ text method, MethodDescriptor.parse text = .ok method ↔
        method.WellFormed ∧ method.descriptor = text) ∧
      (∀ text type, FieldType.parse text = .ok type ↔ type.WellFormed ∧ type.descriptor = text) ∧
      ∀ first second : MethodDescriptor, (∀ type ∈ first.parameters, type.WellFormed) →
        (∀ type ∈ second.parameters, type.WellFormed) →
          first.parameterDescriptors = second.parameterDescriptors →
            first.parameters = second.parameters :=
  ⟨fun _ _ => MethodDescriptor.parse_eq_ok, fun _ _ => FieldType.parse_eq_ok,
    fun _ _ => MethodDescriptor.parameters_eq_of_parameterDescriptors_eq⟩

/-- An array of integers is well-formed exactly if it has at most 255 dimensions. -/
theorem wellFormed_nested_int {count : Nat} :
    (FieldType.nested count (.primitive .int)).WellFormed ↔ count ≤ 255 := by
  have hdimensions : (FieldType.nested count (.primitive .int)).dimensions = count :=
    FieldType.dimensions_nested count trivial
  constructor
  · intro h
    exact hdimensions ▸ h.dimensions_le
  · intro h
    exact ⟨(FieldType.namesClass_nested count _).mpr trivial, hdimensions.symm ▸ h⟩

/-- Arrays of 255 dimensions are read back as they were spelled, those of 256 are not, and
parameters in another order are spelled in another way. -/
theorem parse_nested_int :
    FieldType.parse (FieldType.nested 255 (.primitive .int)).descriptor =
        .ok (.nested 255 (.primitive .int)) ∧
      FieldType.parse (FieldType.nested 256 (.primitive .int)).descriptor ≠
        .ok (.nested 256 (.primitive .int)) ∧
      MethodDescriptor.parameterDescriptors ⟨[.nested 1 (.primitive .int), .primitive .int], .void⟩ ≠
        MethodDescriptor.parameterDescriptors
          ⟨[.primitive .int, .nested 1 (.primitive .int)], .void⟩ := by
  obtain ⟨-, htype, hparameters⟩ := parse_eq_ok_iff_descriptor_eq
  have harray : (FieldType.nested 1 (.primitive .int)).WellFormed :=
    wellFormed_nested_int.mpr (by decide)
  have hint : (FieldType.nested 0 (.primitive .int)).WellFormed :=
    wellFormed_nested_int.mpr (by decide)
  refine ⟨(htype _ _).mpr ⟨wellFormed_nested_int.mpr (by decide), rfl⟩, fun hread => ?_,
    fun hsame => ?_⟩
  · exact absurd (wellFormed_nested_int.mp ((htype _ _).mp hread).1) (by decide)
  · have hlists := hparameters _ _ (by simpa using ⟨harray, hint⟩) (by simpa using ⟨hint, harray⟩)
      hsame
    exact absurd hlists (by decide)

end Descriptor

end NativeHeaders
