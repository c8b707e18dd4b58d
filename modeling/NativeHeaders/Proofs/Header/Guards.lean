import Mathlib.Data.List.Forall2
import NativeHeaders.ClassName
import NativeHeaders.Header
import NativeHeaders.Proofs.Symbol.Lookalikes

/-! # Include guards

The block of a class is guarded by a macro with the escaped name of the class, in which the escape
of a dollar sign is shortened to the underscore that a slash leaves. `withoutDollars` does the same
to the name before it is escaped (`shortenDollars_escapeChars`), so that two classes have one guard
exactly if their names have one `guardReading` (`guardMacro_eq_iff`). In a header for many classes
a block that has the guard of an earlier one is skipped. -/

namespace NativeHeaders.Header

/-! ### Shortened escapes -/

/-- The digits in the escape of a dollar sign. -/
def dollarDigits : List Char := ['0', '0', '0', '2', '4']

/-- The characters with a slash for each dollar sign, and for each slash that looks like the escape
of one because the digits of the escape stand behind it. -/
def withoutDollars : List Char → List Char
  | '/' :: '0' :: '0' :: '0' :: '2' :: '4' :: rest => '/' :: withoutDollars rest
  | '$' :: rest => '/' :: withoutDollars rest
  | c :: rest => c :: withoutDollars rest
  | [] => []

variable {chars rest : List Char}

/-- A character that is no underscore begins no escaped dollar. -/
theorem shortenDollars_cons {c : Char} (h : c ≠ '_') (chars : List Char) :
    shortenDollars (c :: chars) = c :: shortenDollars chars := by
  rw [shortenDollars, List.foldr_cons]
  split
  · exact absurd rfl h
  · rfl

/-- In front of the first underscore there is no escaped dollar. -/
theorem shortenDollars_append {front : List Char} (h : '_' ∉ front) (back : List Char) :
    shortenDollars (front ++ back) = front ++ shortenDollars back := by
  induction front with
  | nil => rfl
  | cons c front ih =>
    rw [List.mem_cons, not_or] at h
    rw [List.cons_append, shortenDollars_cons (Ne.symm h.1), ih h.2, List.cons_append]

/-- The digits of a dollar sign are dropped behind an underscore. -/
theorem shortenDollars_dollar (rest : List Char) :
    shortenDollars ('_' :: (dollarDigits ++ rest)) = '_' :: shortenDollars rest := by
  have htail : (dollarDigits ++ rest).foldr _ [] = dollarDigits ++ shortenDollars rest :=
    shortenDollars_append (by decide) rest
  rw [shortenDollars, List.foldr_cons, htail]
  rfl

/-- An underscore is kept with what follows it, unless the digits of a dollar sign do. -/
theorem shortenDollars_underscore (h : ∀ rest, shortenDollars chars ≠ dollarDigits ++ rest) :
    shortenDollars ('_' :: chars) = '_' :: shortenDollars chars := by
  rw [shortenDollars, List.foldr_cons]
  split
  · next rest _ hrest => exact absurd hrest (h rest)
  · rfl

/-- The escape of a unit is kept, unless the unit is a slash or a dollar sign. -/
theorem shortenDollars_escapeUnit_append {unit : UInt16} (hslash : unit ≠ Symbol.unitOf '/')
    (hdollar : unit ≠ Symbol.unitOf '$') (rest : List Char) :
    shortenDollars (Symbol.escapeUnit unit ++ rest) =
      Symbol.escapeUnit unit ++ shortenDollars rest := by
  have hkept {digits : List Char} (h : ∀ c ∈ digits, c.isAlphanum = true) :
      shortenDollars (digits ++ rest) = digits ++ shortenDollars rest := by
    refine shortenDollars_append (fun hmem => ?_) rest
    exact absurd (h '_' hmem) (by decide)
  rcases Symbol.escapeUnit_cases unit with ⟨c, hc, -, hescape⟩ | ⟨hunit, -⟩ |
    ⟨digits, hne, hdigits, hescape⟩
  · rw [hescape]
    exact hkept (by simpa using hc)
  · exact absurd hunit hslash
  · rw [hescape, List.cons_append, shortenDollars_underscore, hkept hdigits, List.cons_append]
    -- The same characters cannot hold the digits of two escapes.
    intro tail htail
    rw [hkept hdigits] at htail
    have hunit : Symbol.escapeBehind? (digits ++ shortenDollars rest) = some (unit, _) :=
      Symbol.escapeBehind?_append hne hescape _
    have hother : Symbol.escapeBehind? (dollarDigits ++ tail) = some (Symbol.unitOf '$', tail) :=
      Symbol.escapeBehind?_append (by decide) (by decide) tail
    rw [htail, hother, Option.some_inj, Prod.mk.injEq] at hunit
    exact hdollar hunit.1.symm

/-- Escaped units have no escaped dollar among them, if none of them is a slash or a dollar. -/
theorem shortenDollars_escapeUnits_append {units : List UInt16}
    (hslash : Symbol.unitOf '/' ∉ units) (hdollar : Symbol.unitOf '$' ∉ units)
    (rest : List Char) :
    shortenDollars (units.flatMap Symbol.escapeUnit ++ rest) =
      units.flatMap Symbol.escapeUnit ++ shortenDollars rest := by
  induction units with
  | nil => rfl
  | cons unit units ih =>
    rw [List.mem_cons, not_or] at hslash hdollar
    rw [List.flatMap_cons, List.append_assoc,
      shortenDollars_escapeUnit_append (Ne.symm hslash.1) (Ne.symm hdollar.1),
      ih hslash.2 hdollar.2, List.append_assoc]

/-! ### Guards of names -/

/-- A first character that is no slash was there before. -/
theorem withoutDollars_eq_cons {c : Char} (hc : c ≠ '/') (h : withoutDollars chars = c :: rest) :
    ∃ tail, chars = c :: tail ∧ withoutDollars tail = rest := by
  unfold withoutDollars at h
  split at h
  · exact absurd (List.cons.inj h).1.symm hc
  · exact absurd (List.cons.inj h).1.symm hc
  · next tail _ _ =>
    obtain ⟨rfl, hrest⟩ := List.cons.inj h
    exact ⟨tail, rfl, hrest⟩
  · cases h

/-- Characters other than slashes stand first only where they stood first before. -/
theorem withoutDollars_eq_append {digits : List Char} (hdigits : '/' ∉ digits)
    (h : withoutDollars chars = digits ++ rest) : ∃ tail, chars = digits ++ tail := by
  induction digits generalizing chars with
  | nil => exact ⟨chars, rfl⟩
  | cons c digits ih =>
    rw [List.mem_cons, not_or] at hdigits
    obtain ⟨tail, rfl, htail⟩ := withoutDollars_eq_cons (Ne.symm hdigits.1) h
    obtain ⟨back, rfl⟩ := ih hdigits.2 htail
    exact ⟨back, rfl⟩

/-- Shortening what is written is escaping a text with slashes for its dollar signs. -/
theorem shortenDollars_escapeChars (chars : List Char) :
    shortenDollars (Symbol.escapeChars chars) = Symbol.escapeChars (withoutDollars chars) := by
  have hdigits : ∀ c ∈ dollarDigits, c.isAlphanum = true := List.all_eq_true.1 rfl
  have hdollar (rest : List Char)
      (ih : shortenDollars (Symbol.escapeChars rest) = Symbol.escapeChars (withoutDollars rest)) :
      shortenDollars ('_' :: (dollarDigits ++ Symbol.escapeChars rest)) =
        Symbol.escapeChars ('/' :: withoutDollars rest) := by
    rw [shortenDollars_dollar, ih, Symbol.escapeChars_slash]
  induction chars using withoutDollars.induct with
  | case1 rest ih =>
    have hrest := Symbol.escapeChars_append_of_isAlphanum hdigits rest
    rw [withoutDollars, ← hdollar rest ih, Symbol.escapeChars_slash, ← hrest]
    rfl
  | case2 rest ih =>
    have hescape : (Text.charUnits '$').flatMap Symbol.escapeUnit = '_' :: dollarDigits := by
      decide
    rw [withoutDollars, ← hdollar rest ih, Symbol.escapeChars_cons, hescape, List.cons_append]
  | case3 c rest hslash hne ih =>
    rw [withoutDollars.eq_3 c rest hslash hne]
    by_cases hc : c = '/'
    · -- The slash is no shortened escape, because the digits do not stand behind it.
      subst hc
      rw [Symbol.escapeChars_slash, Symbol.escapeChars_slash, shortenDollars_underscore, ih]
      intro tail htail
      rw [ih] at htail
      obtain ⟨middle, hmiddle, -⟩ := (Symbol.escapeChars_eq_append hdigits).1 htail
      obtain ⟨back, hback⟩ := withoutDollars_eq_append (by decide) hmiddle
      exact hslash back rfl hback
    · rw [Symbol.escapeChars_cons, Symbol.escapeChars_cons, shortenDollars_escapeUnits_append
        (Symbol.unitOf_notMem_charUnits (by decide) hc)
        (Symbol.unitOf_notMem_charUnits (by decide) hne), ih]
  | case4 => rfl

/-- The code units that the guard of a class tells of its name. -/
def guardReading (className : String) : List UInt16 :=
  Symbol.reading (withoutDollars className.toList)

/-- The macro that guards the block of a class. -/
def guardMacro (className : String) : String := "_Included_" ++ guardName className

/-- The name of a guard escapes the name of the class with slashes for its dollars. -/
theorem guardName_eq (className : String) :
    guardName className =
      String.ofList (Symbol.escapeChars (withoutDollars className.toList)) := by
  rw [guardName, shortenDollars_escapeChars]

/-- Two classes have one guard exactly if their names have one reading. -/
theorem guardMacro_eq_iff {first second : String} :
    guardMacro first = guardMacro second ↔ guardReading first = guardReading second := by
  rw [guardMacro, guardMacro, String.append_right_inj, guardName_eq, guardName_eq,
    String.ofList_inj, Symbol.escapeChars_eq_iff]
  rfl

/-- A dollar sign in front of a digit looks like the escape of an underscore. -/
example : guardMacro "a$1" = guardMacro "a_" := by decide +kernel

/-! ### Plain names -/

/-- No dollar sign stands in the name, and no slash directly before a digit that would make it look
like an escape. -/
def IsPlain (className : String) : Prop :=
  '$' ∉ className.toList ∧ Symbol.SlashSafe className.toList

/-- A name without dollars, and without slashes that could be taken for the start of an escape, is
left as it is. -/
theorem withoutDollars_of_slashSafe (hdollar : '$' ∉ chars) (hsafe : Symbol.SlashSafe chars) :
    withoutDollars chars = chars := by
  induction chars using withoutDollars.induct with
  | case1 rest =>
    have hzero : Symbol.isEscapeDigit '0' = false := (List.isChain_cons.1 hsafe).1 '0' rfl rfl
    exact absurd hzero (by decide)
  | case2 rest => exact absurd List.mem_cons_self hdollar
  | case3 c rest hslash hne ih =>
    rw [List.mem_cons, not_or] at hdollar
    rw [withoutDollars.eq_3 c rest hslash hne, ih hdollar.2 (List.isChain_cons.1 hsafe).2]
  | case4 => rfl

/-- Plain names that have one guard are equal. -/
theorem eq_of_guardMacro_eq {first second : String} (hfirst : IsPlain first)
    (hsecond : IsPlain second) (h : guardMacro first = guardMacro second) : first = second := by
  rw [guardMacro, guardMacro, String.append_right_inj, guardName_eq, guardName_eq,
    String.ofList_inj, withoutDollars_of_slashSafe hfirst.1 hfirst.2,
    withoutDollars_of_slashSafe hsecond.1 hsecond.2,
    Symbol.escapeChars_inj hfirst.2 hsecond.2] at h
  exact String.toList_inj.1 h

/-! ### Guarded blocks -/

/-- All lines of the block but the comment in front of it are skipped if the guard of the class is
defined, and define it otherwise. -/
def IsGuarded (summary : ClassSummary) (text : String) : Prop :=
  ∃ body, text =
    "/* Header for class " ++ guardName summary.name ++ " */\n\n" ++
      "#ifndef " ++ guardMacro summary.name ++ "\n" ++
      "#define " ++ guardMacro summary.name ++ "\n" ++ body ++ "#endif\n"

/-- All of a block stands between the lines of its guard. -/
theorem isGuarded_block (summary : ClassSummary) (prototypes : List Prototype) :
    IsGuarded summary (block summary prototypes) := by
  refine ⟨"#ifdef __cplusplus\nextern \"C\" \x7b\n#endif\n" ++
    String.join (summary.constants.map (constantLines summary.name)) ++
    String.join (prototypes.map (prototypeLines summary.name)) ++
    "#ifdef __cplusplus\n\x7d\n#endif\n", ?_⟩
  have hifndef : "#ifndef _Included_" = "#ifndef " ++ "_Included_" := by decide +kernel
  have hdefine : "#define _Included_" = "#define " ++ "_Included_" := by decide +kernel
  have hclosing : closing = "#ifdef __cplusplus\n\x7d\n#endif\n" ++ "#endif\n" := by
    decide +kernel
  unfold block opening guardMacro
  simp only [hifndef, hdefine, hclosing, String.append_assoc, -String.reduceAppend]

variable {σ : Type}

/-- All of every rendered block stands between the lines of its guard, in the order of the classes.
-/
theorem isGuarded_renderBlocks (hierarchy : Hierarchy σ) (summaries : List ClassSummary)
    (state : σ) : List.Forall₂ IsGuarded summaries (renderBlocks hierarchy summaries state).1 := by
  induction summaries generalizing state with
  | nil => exact .nil
  | cons summary summaries ih =>
    unfold renderBlocks renderBlock
    exact .cons (isGuarded_block summary _) (ih _)

/-- A header for many classes consists of the banner and the blocks of those that declare
something. -/
theorem renderMany_eq (hierarchy : Hierarchy σ) (classes : List ClassSummary) (state : σ) :
    (renderMany hierarchy classes state).1 =
      if classes.filter (!·.isEmpty) = [] then none
      else some (banner ++
        String.join (renderBlocks hierarchy (classes.filter (!·.isEmpty)) state).1) := by
  rw [renderMany]
  split
  · next hnone => rw [if_pos hnone]
  · next hsome => rw [if_neg hsome]

/-- **Guards of a header for many classes.** There is one guarded block for each class that declares
something. The guards are pairwise different exactly if the readings of the names are, and they are
for different names that are plain. -/
theorem renderMany_guards_nodup_iff (hierarchy : Hierarchy σ) (classes : List ClassSummary)
    (state : σ) :
    ∃ shown blocks, shown = classes.filter (!·.isEmpty) ∧
      (renderMany hierarchy classes state).1 =
        (if shown = [] then none else some (banner ++ String.join blocks)) ∧
      List.Forall₂ IsGuarded shown blocks ∧
      ((shown.map (guardMacro ·.name)).Nodup ↔ (shown.map (guardReading ·.name)).Nodup) ∧
      ((∀ summary ∈ shown, IsPlain summary.name) →
        ((shown.map (guardMacro ·.name)).Nodup ↔ (shown.map (·.name)).Nodup)) := by
  refine ⟨_, _, rfl, renderMany_eq hierarchy classes state,
    isGuarded_renderBlocks hierarchy _ state, ?_, fun hplain => ?_⟩
  · rw [List.nodup_iff_pairwise_ne, List.nodup_iff_pairwise_ne, List.pairwise_map,
      List.pairwise_map]
    exact List.Pairwise.iff fun _ _ => not_congr guardMacro_eq_iff
  · rw [List.nodup_iff_pairwise_ne, List.nodup_iff_pairwise_ne, List.pairwise_map,
      List.pairwise_map]
    constructor
    · intro hguards
      exact hguards.imp fun hne hname => hne (by rw [hname])
    · intro hnames
      exact hnames.imp_of_mem fun hfirst hsecond hne hguard =>
        hne (eq_of_guardMacro_eq (hplain _ hfirst) (hplain _ hsecond) hguard)

/-- A class of a package. -/
def packagedClass : ClassSummary :=
  { name := "a/B", superName := none, constants := [⟨"T", .int 1⟩] }

/-- A class inside a class that is called like the package. -/
def nestedClass : ClassSummary :=
  { name := "a$B", superName := none, constants := [⟨"U", .int 2⟩] }

/-- A dollar sign and a slash leave one guard to two classes, and the second block is skipped. -/
theorem renderMany_shares_guard :
    (∀ summary ∈ [packagedClass, nestedClass], summary.isEmpty = false ∧
        ∃ name, ClassName.ofInternal summary.name = .ok name) ∧
      ([packagedClass, nestedClass].map (·.name)).Nodup ∧
      (renderMany Hierarchy.unresolved [packagedClass, nestedClass] ()).1 =
        some (banner ++
          "/* Header for class a_B */\n\n#ifndef _Included_a_B\n#define _Included_a_B\n" ++
          "#ifdef __cplusplus\nextern \"C\" \x7b\n#endif\n#undef a_B_T\n#define a_B_T 1L\n" ++
          "#ifdef __cplusplus\n\x7d\n#endif\n#endif\n" ++
          "/* Header for class a_B */\n\n#ifndef _Included_a_B\n#define _Included_a_B\n" ++
          "#ifdef __cplusplus\nextern \"C\" \x7b\n#endif\n" ++
          "#undef a_00024B_U\n#define a_00024B_U 2L\n" ++
          "#ifdef __cplusplus\n\x7d\n#endif\n#endif\n") := by
  refine ⟨?_, by decide, by decide +kernel⟩
  simp only [List.forall_mem_cons]
  exact ⟨⟨rfl, { internal := "a/B" }, by decide⟩, ⟨rfl, { internal := "a$B" }, by decide⟩, by simp⟩

end NativeHeaders.Header
