import NativeHeaders.ClassName
import NativeHeaders.Proofs.ClassSummary.Groups
import NativeHeaders.Proofs.Descriptor.Grammar
import NativeHeaders.Proofs.Symbol.Decoding
import NativeHeaders.Proofs.Text.Segments

/-! # Symbols of different methods

A symbol is the escape of one text: the class, a slash, the method, and for the long form two more
slashes and the spelling of the parameters (`toList_ofMethod`). In this text only the long form has
an empty piece between two slashes, so the class, the method and the parameters can be cut out of it
again (`linkText_inj`). Over the classes of a run the symbols of two methods are therefore equal
exactly if the methods differ in no more than the type of the result. -/

namespace NativeHeaders

/-! ### Methods that are declared -/

/-- A method as a class file may declare it: its name is a legal one that is not reserved, and its
types are spelled by a descriptor. -/
structure NativeMethod.Declarable (method : NativeMethod) : Prop where
  /-- The name is legal. -/
  isMethod : ClassName.isMethod method.name = true
  /-- The name is not reserved. -/
  head_ne : method.name.toList.head? ≠ some '<'
  /-- The types are those of a descriptor. -/
  parsed : ∃ text, MethodDescriptor.parse text = .ok method.types

/-- The summaries that come about by adding methods that may be declared, and constants, to a class
with a legal name. -/
inductive ClassSummary.Declared : ClassSummary → Prop where
  /-- A class without members. -/
  | named {name : String} {className : ClassName} (superName : Option String)
      (h : ClassName.ofInternal name = .ok className) : Declared { name, superName }
  /-- A method is added. -/
  | method {summary : ClassSummary} {method : NativeMethod} (hsummary : summary.Declared)
      (hmethod : method.Declarable) : Declared (summary.addMethod method).1
  /-- A constant is added. -/
  | constant {summary : ClassSummary} (field : ConstantField) (hsummary : summary.Declared) :
      Declared (summary.addConstant field)

namespace ClassSummary

/-- The methods of a declared class are grouped. -/
theorem Declared.grouped {summary : ClassSummary} (h : summary.Declared) :
    MethodGroup.Grouped summary.groups := by
  induction h with
  | named => exact MethodGroup.grouped_nil
  | method _ _ ih => exact ih.insert _
  | constant _ _ ih => exact ih

/-- A declared class has a legal name. -/
theorem Declared.isInternal {summary : ClassSummary} (h : summary.Declared) :
    ClassName.isInternal summary.name = true := by
  induction h with
  | named _ h =>
    unfold ClassName.ofInternal at h
    split at h
    · cases h
    · split at h
      · assumption
      · cases h
  | method _ _ ih => exact ih
  | constant _ _ ih => exact ih

/-- Every method of a declared class is one that a class file may declare. -/
theorem Declared.declarable {summary : ClassSummary} (h : summary.Declared) :
    ∀ group ∈ summary.groups, ∀ method ∈ group.methods, method.Declarable := by
  induction h with
  | named => simp
  | method _ hmethod ih =>
    intro group hgroup other hother
    rcases MethodGroup.mem_methods_insert hgroup hother with rfl | ⟨old, hold, hmem⟩
    · exact hmethod
    · exact ih old hold other hmem
  | constant _ _ ih => exact ih

/-- Every listed method of such a summary may be declared. -/
theorem Declared.declarable_of_mem {summary : ClassSummary} (h : summary.Declared)
    {method : NativeMethod} {isOverloaded : Bool}
    (hmem : (method, isOverloaded) ∈ summary.methods) : method.Declarable := by
  obtain ⟨group, hgroup, hmethod, -⟩ := mem_methods.1 hmem
  exact h.declarable group hgroup method hmethod

end ClassSummary

namespace Symbol

/-! ### The text that a symbol escapes -/

/-- The class and the method with a slash between them. -/
def qualified (className methodName : String) : List Char :=
  className.toList ++ '/' :: methodName.toList

/-- What the long form has behind the method. -/
def parametersPart : Option MethodDescriptor → List Char
  | none => []
  | some types => '/' :: '/' :: Descriptor.spellings types.parameters

/-- The text that the symbol of a method escapes. -/
def linkText (className methodName : String) (overload : Option MethodDescriptor) : List Char :=
  qualified className methodName ++ parametersPart overload

/-- A symbol is the escape of a single text behind the mark `Java_`. -/
theorem toList_ofMethod (className methodName : String) (overload : Option MethodDescriptor) :
    (ofMethod className methodName overload).toList =
      "Java_".toList ++ escapeChars (linkText className methodName overload) := by
  have hslash (rest : List Char) : escapeChars ('/' :: rest) = '_' :: escapeChars rest := rfl
  cases overload with
  | none =>
    simp [ofMethod, escape, linkText, qualified, parametersPart, escapeChars_append, hslash]
  | some types =>
    simp [ofMethod, escape, linkText, qualified, parametersPart, escapeChars_append, hslash,
      MethodDescriptor.toList_parameterDescriptors]

/-! ### Cutting the text -/

/-- A name with pieces between its slashes, none of them empty. -/
def Pieced (name : String) : Prop := ∀ piece ∈ Text.segments '/' name.toList, piece ≠ []

/-- The pieces of a legal name are not empty. -/
theorem pieced_of_isInternal {name : String} (h : ClassName.isInternal name = true) :
    Pieced name := by
  intro piece hpiece
  simp only [ClassName.isInternal, ClassName.internalChars, Bool.and_eq_true,
    List.all_eq_true] at h
  have hsimple := h.2 piece hpiece
  simp only [ClassName.simpleChars, Bool.and_eq_true, Bool.not_eq_true', List.isEmpty_eq_false_iff]
    at hsimple
  exact hsimple.1

/-- The name of a method that may be declared has characters, and no slash is among them. -/
theorem slash_notMem_of_declarable {method : NativeMethod} (h : method.Declarable) :
    method.name.toList ≠ [] ∧ '/' ∉ method.name.toList := by
  have hsimple : ClassName.isSimple method.name = true := by
    have hmethod := h.isMethod
    simp only [ClassName.isMethod, Bool.or_eq_true, decide_eq_true_eq, Bool.and_eq_true] at hmethod
    rcases hmethod with (hname | hname) | hname
    · exact absurd (by rw [hname]; rfl) h.head_ne
    · exact absurd (by rw [hname]; rfl) h.head_ne
    · exact hname.1
  simp only [ClassName.isSimple, ClassName.simpleChars, Bool.and_eq_true, Bool.not_eq_true',
    List.isEmpty_eq_false_iff, List.all_eq_true] at hsimple
  refine ⟨hsimple.1, ?_⟩
  intro hmem
  exact absurd (hsimple.2 '/' hmem) (by decide)

variable {firstClass secondClass firstMethod secondMethod : String}

/-- The pieces in front of the first empty one are those of the class, and then the method. -/
theorem takeWhile_segments_linkText (hclass : Pieced firstClass) (hne : firstMethod.toList ≠ [])
    (hslash : '/' ∉ firstMethod.toList) (overload : Option MethodDescriptor) :
    (Text.segments '/' (linkText firstClass firstMethod overload)).takeWhile (· ≠ []) =
      Text.segments '/' firstClass.toList ++ [firstMethod.toList] := by
  have hpieces : ∀ piece ∈ Text.segments '/' firstClass.toList ++ [firstMethod.toList],
      decide (piece ≠ []) = true := by
    intro piece hpiece
    rw [decide_eq_true_iff]
    rcases List.mem_append.1 hpiece with hpiece | hpiece
    · exact hclass piece hpiece
    · rwa [List.mem_singleton.1 hpiece]
  cases overload with
  | none =>
    rw [linkText, parametersPart, List.append_nil, qualified, Text.segments_append_cons,
      Text.segments_of_notMem hslash]
    exact List.takeWhile_eq_self_iff.2 hpieces
  | some types =>
    -- Two slashes in a row have an empty piece between them, and the taking ends there.
    rw [linkText, parametersPart, Text.segments_append_cons, qualified, Text.segments_append_cons,
      Text.segments_of_notMem hslash, Text.segments_cons, if_pos rfl]
    exact Text.takeWhile_append_cons hpieces (by simp)

/-- The class, the method and what the long form adds are determined by the text. -/
theorem linkText_inj (hfirst : Pieced firstClass) (hsecond : Pieced secondClass)
    (hfirstNe : firstMethod.toList ≠ []) (hfirstSlash : '/' ∉ firstMethod.toList)
    (hsecondNe : secondMethod.toList ≠ []) (hsecondSlash : '/' ∉ secondMethod.toList)
    {overload otherOverload : Option MethodDescriptor}
    (h : linkText firstClass firstMethod overload =
      linkText secondClass secondMethod otherOverload) :
    firstClass = secondClass ∧ firstMethod = secondMethod ∧
      parametersPart overload = parametersPart otherOverload := by
  -- The last of the pieces is the method, and those in front of it are the class.
  have hcut := takeWhile_segments_linkText hfirst hfirstNe hfirstSlash overload
  rw [h, takeWhile_segments_linkText hsecond hsecondNe hsecondSlash] at hcut
  obtain ⟨hclass, hmethod⟩ := List.append_inj' hcut rfl
  have hclasses : firstClass = secondClass :=
    String.toList_inj.1 ((Text.segments_inj '/').1 hclass.symm)
  have hmethods : firstMethod = secondMethod :=
    String.toList_inj.1 (List.singleton_inj.1 hmethod).symm
  refine ⟨hclasses, hmethods, ?_⟩
  rw [linkText, linkText, hclasses, hmethods] at h
  exact List.append_cancel_left h

end Symbol

/-! ### Texts without ambiguous slashes -/

/-- The class that the type names, if it is not built from a primitive type. -/
def FieldType.className? : FieldType → Option String
  | .primitive _ => none
  | .object className => some className
  | .array element => element.className?

namespace Symbol

/-- No slash of the name of a method or of the classes among its parameters stands directly before a
digit that would make it look like an escape. -/
structure LinkSafe (className : String) (method : NativeMethod) : Prop where
  /-- The class and the method. -/
  name : SlashSafe (qualified className method.name)
  /-- The parameters. -/
  parameters : ∀ type ∈ method.types.parameters, ∀ name ∈ type.className?, SlashSafe name.toList

/-- A character that is no digit of an escape begins no escape. -/
theorem startsNoEscape_cons {c : Char} (h : isEscapeDigit c = false) (rest : List Char) :
    StartsNoEscape (c :: rest) := by
  intro d hd
  obtain rfl : c = d := by simpa using hd
  exact h

/-- Two safe texts, one behind the other, are safe, if the second one does not begin with the digit
of an escape. -/
theorem slashSafe_append {front back : List Char} (hfront : SlashSafe front)
    (hback : SlashSafe back) (h : StartsNoEscape back) : SlashSafe (front ++ back) := by
  rw [SlashSafe, List.isChain_append]
  exact ⟨hfront, hback, fun _ _ after hafter _ => h after hafter⟩

/-- A character that is no slash may stand in front of a safe text. -/
theorem slashSafe_cons {c : Char} (hc : c ≠ '/') {rest : List Char} (h : SlashSafe rest) :
    SlashSafe (c :: rest) := by
  rw [SlashSafe, List.isChain_cons]
  exact ⟨fun _ _ hslash => absurd hslash hc, h⟩

/-- A slash may stand in front of a safe text that does not begin with the digit of an escape. -/
theorem slashSafe_slash {rest : List Char} (h : SlashSafe rest) (hstart : StartsNoEscape rest) :
    SlashSafe ('/' :: rest) :=
  slashSafe_append (List.isChain_singleton '/') h hstart

/-- A type is spelled safely, if the class that it names is a safe text. -/
theorem slashSafe_spelling {type : FieldType}
    (h : ∀ name ∈ type.className?, SlashSafe name.toList) : SlashSafe type.spelling := by
  induction type with
  | primitive type =>
    rw [FieldType.spelling_primitive]
    exact List.isChain_singleton _
  | object className =>
    rw [FieldType.spelling_object]
    have hname : SlashSafe (className.toList ++ [';']) :=
      slashSafe_append (h className rfl) (List.isChain_singleton _) (startsNoEscape_cons rfl [])
    exact slashSafe_cons (by decide) hname
  | array element ih =>
    rw [FieldType.spelling_array]
    exact slashSafe_cons (by decide) (ih h)

/-- A letter is no digit of an escape. -/
theorem not_isEscapeDigit_of_isAlpha {c : Char} (h : c.isAlpha = true) :
    isEscapeDigit c = false := by
  rw [Bool.eq_false_iff]
  intro hdigit
  simp only [isEscapeDigit, Bool.or_eq_true, decide_eq_true_eq] at hdigit
  rcases hdigit with ((rfl | rfl) | rfl) | rfl <;> exact absurd h (by decide)

/-- The spelling of types does not begin with the digit of an escape. -/
theorem startsNoEscape_spellings (types : List FieldType) :
    StartsNoEscape (Descriptor.spellings types) := by
  cases types with
  | nil => simp [StartsNoEscape, Descriptor.spellings]
  | cons type types =>
    intro c hc
    rw [Descriptor.spellings_cons, List.head?_append_of_ne_nil _ type.spelling_ne_nil] at hc
    rcases type.head?_spelling c hc with h | rfl
    · exact not_isEscapeDigit_of_isAlpha h
    · decide

/-- Types are spelled safely, if all classes that they name are safe texts. -/
theorem slashSafe_spellings {types : List FieldType}
    (h : ∀ type ∈ types, ∀ name ∈ type.className?, SlashSafe name.toList) :
    SlashSafe (Descriptor.spellings types) := by
  induction types with
  | nil => exact List.isChain_nil
  | cons type types ih =>
    obtain ⟨htype, htypes⟩ := List.forall_mem_cons.1 h
    exact slashSafe_append (slashSafe_spelling htype) (ih htypes) (startsNoEscape_spellings types)

/-- The text of a symbol has no ambiguous slashes if the names have none. -/
theorem LinkSafe.linkText {className : String} {method : NativeMethod}
    (h : LinkSafe className method) (isOverloaded : Bool) :
    SlashSafe
      (linkText className method.name (if isOverloaded then some method.types else none)) := by
  cases isOverloaded with
  | false => simpa [Symbol.linkText, parametersPart] using h.name
  | true =>
    have hslash : SlashSafe ('/' :: Descriptor.spellings method.types.parameters) :=
      slashSafe_slash (slashSafe_spellings h.parameters) (startsNoEscape_spellings _)
    have hslashes := slashSafe_slash hslash (startsNoEscape_cons rfl _)
    exact slashSafe_append h.name hslashes (startsNoEscape_cons rfl _)

/-! ### Symbols over a run -/

/-- The long form depends on the parameters only, and not on the result. -/
theorem ofMethod_congr (className methodName : String) {types other : MethodDescriptor}
    (h : types.parameters = other.parameters) :
    ofMethod className methodName (some types) = ofMethod className methodName (some other) := by
  simp only [ofMethod, MethodDescriptor.parameterDescriptors, h]

/-- Methods that may be declared, of classes with legal names, have one symbol only if the classes
and the methods have one name and the long forms show the same parameters. -/
theorem names_eq_of_ofMethod_eq {first second : ClassSummary} (hfirst : first.Declared)
    (hsecond : second.Declared) {method other : NativeMethod} (hmethod : method.Declarable)
    (hother : other.Declarable) (hsafe : LinkSafe first.name method)
    (hotherSafe : LinkSafe second.name other) {isOverloaded otherOverloaded : Bool}
    (h : ofMethod first.name method.name (if isOverloaded then some method.types else none) =
      ofMethod second.name other.name (if otherOverloaded then some other.types else none)) :
    first.name = second.name ∧ method.name = other.name ∧
      parametersPart (if isOverloaded then some method.types else none) =
        parametersPart (if otherOverloaded then some other.types else none) := by
  -- Behind the same mark stand the same escapes, and so the same texts.
  have hchars := congrArg String.toList h
  rw [toList_ofMethod, toList_ofMethod] at hchars
  have htext := (escapeChars_inj (hsafe.linkText isOverloaded)
    (hotherSafe.linkText otherOverloaded)).1 (List.append_cancel_left hchars)
  obtain ⟨hne, hslash⟩ := slash_notMem_of_declarable hmethod
  obtain ⟨hotherNe, hotherSlash⟩ := slash_notMem_of_declarable hother
  exact linkText_inj (pieced_of_isInternal hfirst.isInternal)
    (pieced_of_isInternal hsecond.isInternal) hne hslash hotherNe hotherSlash htext

/-- Methods of one class and one name take the same parameters if their symbols show the same of
them: the short form stands for the only method of its name, and the long form spells them out. -/
theorem parameters_eq_of_parametersPart_eq {summary : ClassSummary} (hsummary : summary.Declared)
    {method other : NativeMethod} {isOverloaded otherOverloaded : Bool}
    (hmethod : (method, isOverloaded) ∈ summary.methods)
    (hother : (other, otherOverloaded) ∈ summary.methods) (hname : method.name = other.name)
    (h : parametersPart (if isOverloaded then some method.types else none) =
      parametersPart (if otherOverloaded then some other.types else none)) :
    method.types.parameters = other.types.parameters := by
  have hgrouped := hsummary.grouped
  -- One name means one group, so both symbols are short or both are long.
  obtain ⟨-, -, -, -, -, rfl⟩ :=
    ClassSummary.exists_group_of_name_eq hgrouped hmethod hother hname
  cases otherOverloaded with
  | false => rw [ClassSummary.eq_of_not_overloaded hgrouped hmethod hother hname]
  | true =>
    obtain ⟨text, hparsed⟩ := (hsummary.declarable_of_mem hmethod).parsed
    obtain ⟨otherText, hotherParsed⟩ := (hsummary.declarable_of_mem hother).parsed
    have hspellings : Descriptor.spellings method.types.parameters =
        Descriptor.spellings other.types.parameters := by
      simpa [parametersPart] using h
    exact (Descriptor.spellings_inj (MethodDescriptor.parse_eq_ok.mp hparsed).1.parameters
      (MethodDescriptor.parse_eq_ok.mp hotherParsed).1.parameters).1 hspellings

/-- **Symbols are unique over a run.** Of two methods listed by classes with different names, the
symbols are equal exactly if the methods belong to one class, have one name and take the same
parameters; they are then one entry, or differ in the type of the result. -/
theorem ofMethod_eq_iff_same_parameters {classes : List ClassSummary}
    (hnames : (classes.map ClassSummary.name).Nodup)
    (hclasses : ∀ summary ∈ classes, summary.Declared)
    {first second : ClassSummary} (hfirst : first ∈ classes) (hsecond : second ∈ classes)
    {method other : NativeMethod} {isOverloaded otherOverloaded : Bool}
    (hmethod : (method, isOverloaded) ∈ first.methods)
    (hother : (other, otherOverloaded) ∈ second.methods)
    (hsafe : LinkSafe first.name method) (hotherSafe : LinkSafe second.name other) :
    (ofMethod first.name method.name (if isOverloaded then some method.types else none) =
        ofMethod second.name other.name (if otherOverloaded then some other.types else none) ↔
      first = second ∧ method.name = other.name ∧
        method.types.parameters = other.types.parameters) ∧
    (first = second ∧ method.name = other.name ∧
        method.types.parameters = other.types.parameters →
      method = other ∨ method.types.returnType ≠ other.types.returnType) := by
  have hdeclarable := (hclasses first hfirst).declarable_of_mem hmethod
  have hotherDeclarable := (hclasses second hsecond).declarable_of_mem hother
  have hgrouped := (hclasses first hfirst).grouped
  refine ⟨⟨fun h => ?_, ?_⟩, ?_⟩
  · obtain ⟨hclass, hname, hparameters⟩ := names_eq_of_ofMethod_eq (hclasses first hfirst)
      (hclasses second hsecond) hdeclarable hotherDeclarable hsafe hotherSafe h
    obtain rfl := List.inj_on_of_nodup_map hnames hfirst hsecond hclass
    exact ⟨rfl, hname, parameters_eq_of_parametersPart_eq (hclasses first hfirst) hmethod hother
      hname hparameters⟩
  · rintro ⟨rfl, hname, hparameters⟩
    obtain ⟨-, -, -, -, -, rfl⟩ :=
      ClassSummary.exists_group_of_name_eq hgrouped hmethod hother hname
    rw [hname]
    cases otherOverloaded with
    | false => rfl
    | true => exact ofMethod_congr _ _ hparameters
  · rintro ⟨rfl, hname, hparameters⟩
    by_cases hreturn : method.types.returnType = other.types.returnType
    · refine Or.inl (ClassSummary.eq_of_types_eq hgrouped hmethod hother hname ?_)
      cases htypes : method.types
      cases hotherTypes : other.types
      simp_all
    · exact Or.inr hreturn

/-- A method of the given types under the name that all methods of the example have. -/
def exampleMethod (types : MethodDescriptor) : NativeMethod :=
  { name := "m", types, isStatic := false }

/-- The methods of the example may be declared. -/
theorem declarable_exampleMethod {text : String} {types : MethodDescriptor}
    (h : MethodDescriptor.parse text = .ok types) : (exampleMethod types).Declarable where
  isMethod := show ClassName.isMethod "m" = true by decide
  head_ne := show "m".toList.head? ≠ some '<' by decide
  parsed := ⟨text, h⟩

/-- A class with the methods `m(I)V`, `m([I)V` and `m(I)I`. -/
def exampleClass : ClassSummary :=
  ({ name := "p/A", superName := none } : ClassSummary).withMembers []
    [exampleMethod ⟨[.primitive .int], .void⟩, exampleMethod ⟨[.array (.primitive .int)], .void⟩,
      exampleMethod ⟨[.primitive .int], .value (.primitive .int)⟩]

/-- The class of the example is declared, with three overloads of one method. -/
theorem declared_exampleClass : exampleClass.Declared := by
  have hint : MethodDescriptor.parse "(I)V" = .ok ⟨[.primitive .int], .void⟩ := by cbv
  have harray : MethodDescriptor.parse "([I)V" = .ok ⟨[.array (.primitive .int)], .void⟩ := by cbv
  have hresult : MethodDescriptor.parse "(I)I" =
      .ok ⟨[.primitive .int], .value (.primitive .int)⟩ := by cbv
  have hname : ClassName.ofInternal "p/A" = .ok { internal := "p/A" } := by decide
  exact .method (.method (.method (.named none hname) (declarable_exampleMethod hint))
    (declarable_exampleMethod harray)) (declarable_exampleMethod hresult)

/-- Of three methods of one name, the two that differ in the result only share a symbol. -/
theorem ofMethod_exampleClass :
    ofMethod "p/A" "m" (some ⟨[.primitive .int], .void⟩) ≠
        ofMethod "p/A" "m" (some ⟨[.array (.primitive .int)], .void⟩) ∧
      ofMethod "p/A" "m" (some ⟨[.primitive .int], .void⟩) =
        ofMethod "p/A" "m" (some ⟨[.primitive .int], .value (.primitive .int)⟩) := by
  have hclasses : ∀ summary ∈ [exampleClass], summary.Declared := by
    simpa using declared_exampleClass
  have hsafe (types : MethodDescriptor) (h : types.parameters = [.primitive .int] ∨
      types.parameters = [.array (.primitive .int)]) : LinkSafe "p/A" (exampleMethod types) := by
    refine ⟨show SlashSafe (qualified "p/A" "m") by decide, ?_⟩
    rcases h with h | h <;> simp [exampleMethod, h, FieldType.className?]
  have hiff (types other : MethodDescriptor)
      (hmethod : (exampleMethod types, true) ∈ exampleClass.methods)
      (hother : (exampleMethod other, true) ∈ exampleClass.methods)
      (htypes : types.parameters = [.primitive .int] ∨
        types.parameters = [.array (.primitive .int)])
      (hothers : other.parameters = [.primitive .int] ∨
        other.parameters = [.array (.primitive .int)]) :=
    (ofMethod_eq_iff_same_parameters (by simp) hclasses (by simp) (by simp) hmethod hother
      (hsafe types htypes) (hsafe other hothers)).1
  constructor
  · intro h
    have hsame := (hiff ⟨[.primitive .int], .void⟩ ⟨[.array (.primitive .int)], .void⟩ (by decide)
      (by decide) (Or.inl rfl) (Or.inr rfl)).1 h
    exact absurd hsame.2.2 (by decide)
  · exact (hiff ⟨[.primitive .int], .void⟩ ⟨[.primitive .int], .value (.primitive .int)⟩ (by decide)
      (by decide) (Or.inl rfl) (Or.inl rfl)).2 ⟨rfl, rfl, rfl⟩

end Symbol

end NativeHeaders
