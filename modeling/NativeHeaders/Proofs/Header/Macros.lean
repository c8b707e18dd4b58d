import NativeHeaders.ClassFile
import NativeHeaders.Header
import NativeHeaders.Proofs.ClassFile.Format
import NativeHeaders.Proofs.Symbol.Lookalikes

/-! # Macros for constants

The name of the macro for a constant is the escaped name of the class, an underscore and the name of
the field as it stands. Escaping leaves letters, digits and underscores, but the name of a field can
be almost any text. `renderBlock_macros_iff` says for which names the lines of all constants define
macros. -/

namespace NativeHeaders.Header

/-! ### Identifiers -/

/-- A letter, a digit or an underscore. -/
def IsWordChar (c : Char) : Prop := c.isAlphanum = true ∨ c = '_'

/-- A letter or an underscore, followed by letters, digits and underscores. -/
def IsIdentifier (name : String) : Prop :=
  ∃ first rest, name.toList = first :: rest ∧ (first.isAlpha = true ∨ first = '_') ∧
    ∀ c ∈ rest, IsWordChar c

/-- The name starts with a digit. -/
def StartsWithDigit (name : String) : Prop := ∃ c ∈ name.toList.head?, c.isDigit = true

/-- A letter is no digit. -/
theorem isDigit_of_isAlpha {c : Char} (h : c.isAlpha = true) : c.isDigit = false := by
  unfold Char.isAlpha Char.isUpper Char.isLower at h
  unfold Char.isDigit
  simp only [Bool.or_eq_true, Bool.and_eq_true, Bool.and_eq_false_iff, decide_eq_true_eq,
    decide_eq_false_iff_not, UInt32.le_iff_toNat_le, ge_iff_le] at h ⊢
  have hbounds : '9'.val.toNat = 57 ∧ 'A'.val.toNat = 65 ∧ 'a'.val.toNat = 97 := by decide
  omega

/-- A text of word characters is an identifier if it does not start with a digit. -/
theorem isIdentifier_iff {name : String} :
    IsIdentifier name ↔
      name.toList ≠ [] ∧ ¬StartsWithDigit name ∧ ∀ c ∈ name.toList, IsWordChar c := by
  constructor
  · rintro ⟨first, rest, hname, hfirst, hrest⟩
    rw [StartsWithDigit, hname, List.forall_mem_cons]
    refine ⟨List.cons_ne_nil _ _, ?_, ?_, hrest⟩
    · rintro ⟨c, hc, hdigit⟩
      obtain rfl : first = c := by simpa using hc
      rcases hfirst with hfirst | rfl
      · rw [isDigit_of_isAlpha hfirst] at hdigit
        cases hdigit
      · exact absurd hdigit (by decide)
    · exact hfirst.imp_left fun halpha => by rw [Char.isAlphanum, halpha, Bool.true_or]
  · rintro ⟨hne, hdigit, hword⟩
    obtain ⟨first, rest, hname⟩ := List.exists_cons_of_ne_nil hne
    rw [StartsWithDigit, hname] at hdigit
    rw [hname, List.forall_mem_cons] at hword
    refine ⟨first, rest, hname, hword.1.imp_left fun halnum => ?_, hword.2⟩
    rw [Char.isAlphanum, Bool.or_eq_true] at halnum
    exact halnum.resolve_right fun h => hdigit ⟨first, rfl, h⟩

/-! ### Names of macros -/

/-- The name of a macro is the escaped name of the class, an underscore, and the name of the field.
-/
theorem toList_macroName (className : String) (field : ConstantField) :
    (macroName className field).toList =
      Symbol.escapeChars className.toList ++ '_' :: field.name.toList := by
  simp [macroName, Symbol.escape]

/-- A digit is first in the name of a macro exactly if it is first in the name of the class. -/
theorem startsWithDigit_macroName (className : String) (field : ConstantField) :
    StartsWithDigit (macroName className field) ↔ StartsWithDigit className := by
  rw [StartsWithDigit, StartsWithDigit, toList_macroName]
  have halnum {c : Char} (h : c.isDigit = true) : c.isAlphanum = true := by
    rw [Char.isAlphanum, h, Bool.or_true]
  constructor
  · rintro ⟨c, hc, hdigit⟩
    refine ⟨c, ?_, hdigit⟩
    cases hescape : Symbol.escapeChars className.toList with
    | nil =>
      rw [hescape, List.nil_append, List.head?_cons, Option.mem_some_iff] at hc
      rw [← hc] at hdigit
      exact absurd hdigit (by decide)
    | cons d rest =>
      rw [hescape, List.cons_append, List.head?_cons, Option.mem_some_iff] at hc
      rw [hc] at hescape
      obtain ⟨tail, htail, -⟩ := (Symbol.escapeChars_eq_cons (halnum hdigit)).1 hescape
      rw [htail]
      rfl
  · rintro ⟨c, hc, hdigit⟩
    obtain ⟨tail, htail⟩ := List.head?_eq_some_iff.1 hc
    refine ⟨c, ?_, hdigit⟩
    rw [htail, Symbol.escapeChars_cons_of_isAlphanum (halnum hdigit)]
    rfl

/-- The name of a macro is an identifier exactly if the class does not start with a digit and the
field consists of word characters. -/
theorem isIdentifier_macroName {className : String} {field : ConstantField} :
    IsIdentifier (macroName className field) ↔
      ¬StartsWithDigit className ∧ ∀ c ∈ field.name.toList, IsWordChar c := by
  rw [isIdentifier_iff, startsWithDigit_macroName, toList_macroName]
  constructor
  · rintro ⟨-, hdigit, hword⟩
    exact ⟨hdigit, fun c hc => hword c (List.mem_append_right _ (List.mem_cons_of_mem _ hc))⟩
  · rintro ⟨hdigit, hword⟩
    refine ⟨by simp, hdigit, fun c hc => ?_⟩
    rcases List.mem_append.1 hc with hc | hc
    · exact Symbol.isAlphanum_or_eq_of_mem_escapeChars hc
    · exact List.forall_mem_cons.2 ⟨.inr rfl, hword⟩ c hc

/-- In one class macros have the same name exactly if the fields do. -/
theorem macroName_inj {className : String} {field other : ConstantField} :
    macroName className field = macroName className other ↔ field.name = other.name := by
  rw [macroName, macroName, String.append_right_inj]

/-! ### Lines of constants -/

/-- The lines undefine the macro of a given name and define it as a literal, and the name is an
identifier. -/
structure DefinesMacro (lines name literal : String) : Prop where
  /-- The name is an identifier. -/
  isIdentifier : IsIdentifier name
  /-- Nothing stands between the name and the end of the line or the literal. -/
  eq : lines = "#undef " ++ name ++ "\n" ++ "#define " ++ name ++ " " ++ literal ++ "\n"

/-- The macro that the lines of a constant define can be told from them. -/
theorem DefinesMacro.eq_macroName {className name : String} {field : ConstantField}
    (h : DefinesMacro (constantLines className field) name field.value.literal) :
    name = macroName className field := by
  have hlines := h.eq
  unfold constantLines at hlines
  dsimp only at hlines
  -- Both names stand twice in lines of one length, so they are as long as each other.
  have hlength : (macroName className field).toList.length = name.toList.length := by
    have htotal := congrArg String.length hlines
    simp only [String.length_append] at htotal
    simp only [String.length_toList]
    omega
  have hchars := congrArg String.toList hlines
  simp only [String.toList_append, List.append_assoc] at hchars
  exact String.toList_inj.1 (List.append_inj (List.append_cancel_left hchars) hlength).1.symm

/-- All constants of a class are macros that can be told apart. -/
structure HasMacros (summary : ClassSummary) : Prop where
  /-- The lines of each constant define a macro. -/
  defined : ∀ field ∈ summary.constants,
    ∃ name, DefinesMacro (constantLines summary.name field) name field.value.literal
  /-- Fields with different names have different macros. -/
  distinct : ∀ field ∈ summary.constants, ∀ other ∈ summary.constants, field.name ≠ other.name →
    ∀ name otherName, DefinesMacro (constantLines summary.name field) name field.value.literal →
      DefinesMacro (constantLines summary.name other) otherName other.value.literal →
      name ≠ otherName

/-- **Macros of a class.** The lines for the constants stand between the opening of the block and
the prototypes. They define macros with different names for different fields exactly if there is no
constant, or the name of the class starts with no digit and the names of all constants consist of
letters, digits and underscores. -/
theorem renderBlock_macros_iff {σ : Type} (hierarchy : Hierarchy σ) (summary : ClassSummary)
    (state : σ) :
    (∃ prototypes : List Prototype, (renderBlock hierarchy summary state).1 =
      opening summary.name ++
        String.join (summary.constants.map (constantLines summary.name)) ++
        String.join (prototypes.map (prototypeLines summary.name)) ++ closing) ∧
    (HasMacros summary ↔ ∀ field ∈ summary.constants,
      ¬StartsWithDigit summary.name ∧ ∀ c ∈ field.name.toList, IsWordChar c) := by
  refine ⟨⟨_, rfl⟩, fun h field hfield => ?_, fun h => ⟨fun field hfield => ?_, ?_⟩⟩
  · obtain ⟨name, hname⟩ := h.defined field hfield
    have hidentifier := hname.isIdentifier
    rw [hname.eq_macroName] at hidentifier
    exact isIdentifier_macroName.1 hidentifier
  · exact ⟨_, isIdentifier_macroName.2 (h field hfield), rfl⟩
  · intro field _ other _ hne name otherName hname hother
    rw [hname.eq_macroName, hother.eq_macroName]
    exact fun heq => hne (macroName_inj.1 heq)

/-- A class with a constant whose name is no identifier. -/
def hyphenFile : ClassFile.Format.File where
  minor := 0
  major := 52
  poolCount := 7
  entries := [.utf8 "A".toUTF8.data.toList, .classRef 1, .utf8 "MAX-SIZE".toUTF8.data.toList,
    .utf8 "I".toUTF8.data.toList, .utf8 "ConstantValue".toUTF8.data.toList, .integer 1]
  flags := 0
  thisIndex := 2
  superIndex := 0
  interfaces := []
  fields := [⟨0x18, 3, 4, [⟨5, [0, 6]⟩]⟩]
  methods := []
  attributes := []

/-- What a header needs of it. -/
def hyphenSummary : ClassSummary :=
  { name := "A", superName := none, constants := [⟨"MAX-SIZE", .int 1⟩] }

/-- The lines for a constant with a hyphen in its name define another macro. -/
theorem exists_constant_without_macro :
    ClassFile.read hyphenFile.encode = .ok hyphenSummary ∧
      (renderBlock Hierarchy.unresolved hyphenSummary ()).1 =
        "/* Header for class A */\n\n#ifndef _Included_A\n#define _Included_A\n" ++
          "#ifdef __cplusplus\nextern \"C\" \x7b\n#endif\n" ++
          "#undef A_MAX-SIZE\n#define A_MAX-SIZE 1L\n" ++
          "#ifdef __cplusplus\n\x7d\n#endif\n#endif\n" ∧
      ¬HasMacros hyphenSummary := by
  refine ⟨by decide +kernel, by decide +kernel, fun h => ?_⟩
  obtain ⟨name, hname⟩ := h.defined ⟨"MAX-SIZE", .int 1⟩ (by decide)
  have hidentifier := hname.isIdentifier
  rw [hname.eq_macroName, isIdentifier_macroName] at hidentifier
  have hhyphen : IsWordChar '-' := hidentifier.2 '-' (by decide)
  exact absurd hhyphen (by simp [IsWordChar])

end NativeHeaders.Header
