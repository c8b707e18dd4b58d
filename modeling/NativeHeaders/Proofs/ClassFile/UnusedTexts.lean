import NativeHeaders.Proofs.ClassFile.Acceptance
import NativeHeaders.Proofs.Text.ModifiedUtf8

/-! # Texts that nothing refers to

A class file may hold texts that a header does not need, such as string literals, and their
characters are any code units. `File.Uses` says which texts the extraction looks at. Exchanging any
other one changes nothing that is extracted (`DifferInText.extracts`), but the pool is read as a
whole: a file with an unpaired surrogate in such a text is refused (`read_withText`). -/

namespace NativeHeaders.ClassFile

namespace Format

/-! ### Exchanging a text -/

/-- The entries, of which the first one stands at `slot`, with another one in place of the one at an
index. -/
def replacedFrom : Nat → List Entry → Nat → Entry → List Entry
  | _, [], _, _ => []
  | slot, entry :: entries, index, other =>
    if index = slot then other :: entries
    else entry :: replacedFrom (slot + entry.width) entries index other

/-- The file with other bytes in the text at an index. -/
def File.withText (file : File) (index : UInt16) (bytes : List UInt8) : File :=
  { file with entries := replacedFrom 1 file.entries index.toNat (.utf8 bytes) }

section Replacing

variable {entries : List Entry} {slot index : Nat} {entry other : Entry}

/-- The entry at the index is the other one. -/
theorem entryFrom?_replacedFrom_self (h : entryFrom? slot entries index = some entry) :
    entryFrom? slot (replacedFrom slot entries index other) index = some other := by
  induction entries generalizing slot with
  | nil => cases h
  | cons first entries ih =>
    rw [entryFrom?] at h
    rw [replacedFrom]
    split at h
    · next hindex => rw [if_pos hindex, entryFrom?, if_pos hindex]
    · next hindex =>
      rw [if_neg hindex, entryFrom?, if_neg hindex]
      exact ih h

/-- All other entries stay where they are, if the other one takes as many slots. -/
theorem entryFrom?_replacedFrom_of_ne (h : entryFrom? slot entries index = some entry)
    (hwidth : other.width = entry.width) {position : Nat} (hne : position ≠ index) :
    entryFrom? slot (replacedFrom slot entries index other) position =
      entryFrom? slot entries position := by
  induction entries generalizing slot with
  | nil => rfl
  | cons first entries ih =>
    rw [entryFrom?] at h
    rw [replacedFrom]
    split at h
    · next hindex =>
      cases h
      rw [if_pos hindex, entryFrom?, entryFrom?, if_neg (hindex ▸ hne), if_neg (hindex ▸ hne),
        hwidth]
    · next hindex => rw [if_neg hindex, entryFrom?, entryFrom?, ih h]

/-- The slots of the pool are filled as before. -/
theorem fill_replacedFrom {count : Nat} (hfill : Fill count slot entries)
    (h : entryFrom? slot entries index = some entry) (hwidth : other.width = entry.width) :
    Fill count slot (replacedFrom slot entries index other) := by
  induction entries generalizing slot with
  | nil => exact hfill
  | cons first entries ih =>
    rw [entryFrom?] at h
    rw [replacedFrom]
    split at h
    · next hindex =>
      cases h
      rw [if_pos hindex]
      exact ⟨hfill.1, hwidth ▸ hfill.2⟩
    · next hindex =>
      rw [if_neg hindex]
      exact ⟨hfill.1, ih hfill.2 h⟩

/-- An entry in the changed list is the new one, or it was there before. -/
theorem mem_replacedFrom {found : Entry} (h : found ∈ replacedFrom slot entries index other) :
    found = other ∨ found ∈ entries := by
  induction entries generalizing slot with
  | nil => cases h
  | cons first entries ih =>
    rw [replacedFrom] at h
    split at h
    · rcases List.mem_cons.mp h with rfl | hfound
      · exact .inl rfl
      · exact .inr (List.mem_cons_of_mem _ hfound)
    · rcases List.mem_cons.mp h with rfl | hfound
      · exact .inr List.mem_cons_self
      · exact (ih hfound).imp_right (List.mem_cons_of_mem _)

end Replacing

/-- A file can be written with any text that can be. -/
theorem File.WellFormed.withText {file : File} (h : file.WellFormed) {index : UInt16}
    {old bytes : List UInt8} (hold : entryAt? file.entries index = some (.utf8 old))
    (hbytes : (Entry.utf8 bytes).WellFormed) : (file.withText index bytes).WellFormed where
  supported := h.supported
  fill := fill_replacedFrom h.fill hold rfl
  entries := by
    intro entry hentry
    rcases mem_replacedFrom hentry with rfl | hmem
    · exact hbytes
    · exact h.entries entry hmem
  interfaces := h.interfaces
  fields := h.fields
  methods := h.methods
  attributes := h.attributes

/-! ### The texts that are used -/

/-- The index of a text that the extraction looks at. -/
inductive File.Uses (file : File) : UInt16 → Prop where
  /-- The name of the class. -/
  | className {nameIndex : UInt16}
      (h : entryAt? file.entries file.thisIndex = some (.classRef nameIndex)) : file.Uses nameIndex
  /-- The name of the superclass. -/
  | superName {nameIndex : UInt16}
      (h : entryAt? file.entries file.superIndex = some (.classRef nameIndex)) : file.Uses nameIndex
  /-- The name of an attribute of two bytes, if the field is static. -/
  | attributeName {field : Member} {item : Attribute} (hfield : field ∈ file.fields)
      (hitem : item ∈ field.attributes) (hstatic : isStatic field.flags.toNat = true)
      (hlength : item.body.length = 2) : file.Uses item.nameIndex
  /-- The name of a field whose constant is kept. -/
  | fieldName {field : Member} {item : Attribute} {constant : ConstantField}
      (hfield : field ∈ file.fields) (hitem : item ∈ field.attributes)
      (hconstant : FieldConstant file.entries field item (some constant)) :
      file.Uses field.nameIndex
  /-- The name of a native method. -/
  | methodName {method : Member} (hmethod : method ∈ file.methods)
      (hnative : isNative method.flags.toNat = true) : file.Uses method.nameIndex
  /-- The descriptor of a native method. -/
  | methodDescriptor {method : Member} (hmethod : method ∈ file.methods)
      (hnative : isNative method.flags.toNat = true) : file.Uses method.descriptorIndex

/-- The entries are the same except for what text stands at an index. -/
structure DifferInText (index : UInt16) (entries others : List Entry) : Prop where
  /-- There is a text at the index. -/
  text : ∃ bytes, entryAt? entries index = some (.utf8 bytes)
  /-- There is a text at the index of the other entries, too. -/
  otherText : ∃ bytes, entryAt? others index = some (.utf8 bytes)
  /-- Everywhere else the entries are the same. -/
  elsewhere : ∀ position, position ≠ index → entryAt? others position = entryAt? entries position

/-- Other bytes in a text make a file whose entries differ in this text only. -/
theorem differInText_withText {file : File} {index : UInt16} {old : List UInt8}
    (hold : entryAt? file.entries index = some (.utf8 old)) (bytes : List UInt8) :
    DifferInText index file.entries (file.withText index bytes).entries where
  text := ⟨old, hold⟩
  otherText := ⟨bytes, entryFrom?_replacedFrom_self hold⟩
  elsewhere _ hne :=
    have hwidth : (Entry.utf8 bytes).width = (Entry.utf8 old).width := rfl
    entryFrom?_replacedFrom_of_ne hold hwidth (mt UInt16.toNat_inj.mp hne)

namespace DifferInText

variable {index : UInt16} {entries others : List Entry}

/-- An entry that is no text is where it was. -/
theorem entryAt?_eq (h : DifferInText index entries others) {position : UInt16} {entry : Entry}
    (hentry : entryAt? entries position = some entry) (hno : ∀ bytes, entry ≠ .utf8 bytes) :
    entryAt? others position = some entry := by
  rw [h.elsewhere, hentry]
  rintro rfl
  obtain ⟨bytes, htext⟩ := h.text
  rw [htext, Option.some_inj] at hentry
  exact hno bytes hentry.symm

/-- A text at another index is where it was. -/
theorem textAt?_eq (h : DifferInText index entries others) {position : UInt16}
    (hne : position ≠ index) : textAt? others position = textAt? entries position := by
  rw [textAt?, textAt?, h.elsewhere position hne]

/-- The name of a class is still found if its text is not the one that differs. -/
theorem classAt?_eq_some (h : DifferInText index entries others) {position : UInt16}
    {name : String} (hname : classAt? entries position = some name)
    (hunused : ∀ nameIndex, entryAt? entries position = some (.classRef nameIndex) →
      nameIndex ≠ index) : classAt? others position = some name := by
  unfold classAt? at hname ⊢
  split at hname
  · next nameIndex hentry =>
    rw [h.entryAt?_eq hentry (by simp)]
    exact (h.textAt?_eq (hunused nameIndex hentry)).trans hname
  · cases hname

/-- The name of the superclass is still found if its text is not the one that differs. -/
theorem superName (h : DifferInText index entries others) {position : UInt16}
    {name : Option String} (hname : SuperName entries position name)
    (hunused : ∀ nameIndex, entryAt? entries position = some (.classRef nameIndex) →
      nameIndex ≠ index) : SuperName others position name := by
  cases hname with
  | root => exact .root
  | named hindex hname => exact .named hindex (h.classAt?_eq_some hname hunused)

/-- An attribute gives a field the constant it gave before: what is no number stays no number. -/
theorem fieldConstant (h : DifferInText index entries others) {field : Member} {item : Attribute}
    {result : Option ConstantField} (hconstant : FieldConstant entries field item result)
    (hattribute : isStatic field.flags.toNat = true → item.body.length = 2 →
      item.nameIndex ≠ index)
    (hfield : ∀ constant, result = some constant → field.nameIndex ≠ index) :
    FieldConstant others field item result := by
  cases hconstant with
  | passedOver hpassed => exact .passedOver hpassed
  | otherName hstatic hlength hname hne =>
    rw [← h.textAt?_eq (hattribute hstatic hlength)] at hname
    exact .otherName hstatic hlength hname hne
  | @notNumeric nameIndex position entry hstatic hname hentry hnumber =>
    rw [← h.textAt?_eq (hattribute hstatic (length_numberBytes ..))] at hname
    by_cases hposition : position = index
    · -- The constant is the text itself, which is another one now.
      obtain ⟨bytes, htext⟩ := h.otherText
      exact .notNumeric hstatic hname (hposition ▸ htext) rfl
    · exact .notNumeric hstatic hname ((h.elsewhere position hposition).trans hentry) hnumber
  | numeric hstatic hname hentry hnumber hkept =>
    rw [← h.textAt?_eq (hattribute hstatic (length_numberBytes ..))] at hname
    rw [← h.textAt?_eq (hfield _ rfl)] at hkept
    refine .numeric hstatic hname (h.entryAt?_eq hentry ?_) hnumber hkept
    rintro bytes rfl
    cases hnumber

/-- A method is still taken or passed over as it was, if neither its name nor its descriptor is the
text that differs. -/
theorem nativeEntry (h : DifferInText index entries others) {method : Member}
    {result : Option NativeMethod} (hentry : NativeEntry entries method result)
    (hunused : isNative method.flags.toNat = true →
      method.nameIndex ≠ index ∧ method.descriptorIndex ≠ index) :
    NativeEntry others method result := by
  cases hentry with
  | notNative hother => exact .notNative hother
  | native hnative hname hmethod hhead hdescriptor htypes =>
    obtain ⟨hnameIndex, hdescriptorIndex⟩ := hunused hnative
    rw [← h.textAt?_eq hnameIndex] at hname
    rw [← h.textAt?_eq hdescriptorIndex] at hdescriptor
    exact .native hnative hname hmethod hhead hdescriptor htypes

end DifferInText

/-- What holds of pairs whose first one is in the list carries over to the pairs. -/
theorem forall₂_imp_of_mem {X Y : Type} {R S : X → Y → Prop} {things : List X} {results : List Y}
    (h : List.Forall₂ R things results)
    (himp : ∀ thing ∈ things, ∀ result, R thing result → S thing result) :
    List.Forall₂ S things results := by
  induction h with
  | nil => exact .nil
  | cons hhead _ ih =>
    obtain ⟨hfirst, hothers⟩ := List.forall_mem_cons.mp himp
    exact .cons (hfirst _ hhead) (ih hothers)

/-- **A text that is not used does not matter for what is extracted.** -/
theorem File.Extracts.withText {file : File} {summary : ClassSummary} (h : file.Extracts summary)
    {index : UInt16} {old : List UInt8} (hold : entryAt? file.entries index = some (.utf8 old))
    (hunused : ¬file.Uses index) (bytes : List UInt8) :
    (file.withText index bytes).Extracts summary := by
  have hdiffer := differInText_withText hold bytes
  obtain ⟨hname, hsuper, hconstants, hmethods⟩ := h
  refine .intro (hdiffer.classAt?_eq_some hname ?_) (hdiffer.superName hsuper ?_)
    (forall₂_imp_of_mem hconstants ?_) (forall₂_imp_of_mem hmethods ?_)
  · rintro nameIndex hentry rfl
    exact hunused (.className hentry)
  · rintro nameIndex hentry rfl
    exact hunused (.superName hentry)
  · intro field hfield constants hfound
    refine forall₂_imp_of_mem hfound fun item hitem result hconstant => ?_
    refine hdiffer.fieldConstant hconstant ?_ ?_
    · rintro hstatic hlength rfl
      exact hunused (.attributeName hfield hitem hstatic hlength)
    · rintro constant rfl rfl
      exact hunused (.fieldName hfield hitem hconstant)
  · intro method hmethod result hentry
    refine hdiffer.nativeEntry hentry fun hnative => ⟨?_, ?_⟩
    · rintro rfl
      exact hunused (.methodName hmethod hnative)
    · rintro rfl
      exact hunused (.methodDescriptor hmethod hnative)

end Format

/-! ### Reading the pool -/

open Format

/-- A text that cannot be decoded is refused when its entry is read. -/
theorem readConstant_encode_error {slot : Nat} {text rest : List UInt8} (hshort : IsShort text)
    (hdecode : Text.ModifiedUtf8.decode? text = none) :
    readConstant slot ((Entry.utf8 text).encode ++ rest) = .error (.invalidText slot) := by
  have htag : readByte ((Entry.utf8 text).encode ++ rest) =
      .ok (1, (Entry.utf8 text).payload ++ rest) :=
    readNumber_eq_ok.mpr ⟨by decide, by rw [Entry.encode, List.append_assoc]; rfl⟩
  have hlength : readShort ((Entry.utf8 text).payload ++ rest) = .ok (text.length, text ++ rest) :=
    readNumber_eq_ok.mpr ⟨hshort, by rw [Entry.payload, List.append_assoc]⟩
  have htext : takeBytes text.length (text ++ rest) = .ok (text, rest) :=
    takeBytes_eq_ok.mpr ⟨rfl, rfl⟩
  rw [readConstant, bind_of_ok htag]
  show (readShort >>= _) _ = _
  rw [bind_of_ok hlength, bind_of_ok htext, hdecode]
  rfl

/-- The loop stops at a text that cannot be decoded. -/
theorem readSlots_replacedFrom_error {count index : Nat} {pool : ConstantPool}
    {entries : List Entry} {entry : Entry} {text rest : List UInt8}
    (hfill : Fill count pool.size entries) (hwells : ∀ entry ∈ entries, entry.WellFormed)
    (hentry : entryFrom? pool.size entries index = some entry) (hshort : IsShort text)
    (hdecode : Text.ModifiedUtf8.decode? text = none) :
    readSlots count pool
        ((replacedFrom pool.size entries index (.utf8 text)).flatMap Entry.encode ++ rest) =
      .error (.invalidText index) := by
  induction entries generalizing pool with
  | nil => cases hentry
  | cons first entries ih =>
    obtain ⟨hwell, hwells⟩ := List.forall_mem_cons.mp hwells
    rw [entryFrom?] at hentry
    rw [readSlots, if_pos hfill.1, replacedFrom]
    split at hentry
    · next hindex =>
      rw [if_pos hindex, List.flatMap_cons, List.append_assoc,
        bind_of_error (readConstant_encode_error hshort hdecode), hindex]
    · next hindex =>
      rw [if_neg hindex, List.flatMap_cons, List.append_assoc,
        bind_of_ok (readConstant_encode hwell)]
      rw [← size_append_slots] at hentry ⊢
      exact ih (size_append_slots pool first ▸ hfill.2) hwells hentry

/-- A file with a text that cannot be decoded is refused because of it. -/
theorem read_withText_error {file : File} (hwell : file.WellFormed) {index : UInt16}
    {old text : List UInt8} (hold : entryAt? file.entries index = some (.utf8 old))
    (hshort : IsShort text) (hdecode : Text.ModifiedUtf8.decode? text = none)
    (rest : List UInt8) :
    read ((file.withText index text).encode ++ rest) = .error (.invalidText index.toNat) := by
  -- The head is that of the old file, and the pool is refused.
  have hhead (left : List UInt8) :
      readHead (numberBytes 4 magic ++ (numberBytes 2 (file.withText index text).minor.toNat ++
        (numberBytes 2 (file.withText index text).major.toNat ++ left))) = .ok ((), left) :=
    readHead_eq_ok.mpr ⟨file.minor, file.major, hwell.supported, rfl⟩
  have hpool (left : List UInt8) :
      readPool (numberBytes 2 (file.withText index text).poolCount.toNat ++
        (file.withText index text).entries.flatMap Entry.encode ++ left) =
          .error (.invalidText index.toNat) := by
    rw [readPool, List.append_assoc,
      bind_of_ok (readShort_eq_ok.mpr ⟨(file.withText index text).poolCount, rfl, rfl⟩)]
    exact readSlots_replacedFrom_error hwell.fill hwell.entries hold hshort hdecode
  have hclass : readClass ((file.withText index text).encode ++ rest) =
      .error (.invalidText index.toNat) := by
    rw [encode_file_append, readClass, bind_of_ok (hhead _), bind_of_error (hpool _)]
  show (readClass _ >>= _) = _
  rw [hclass]
  rfl

/-! ### Files with exchanged texts -/

/-- As many code units as an entry can hold are written in bytes that it can hold. -/
theorem isShort_encodeUnits {units : List UInt16} (h : units.length ≤ 21845) :
    IsShort (Text.ModifiedUtf8.encodeUnits units) := by
  have hlength := Text.ModifiedUtf8.length_encodeUnits_le units
  rw [IsShort]
  omega

/-- **When a text that is not used matters.** Bytes that are read are the encoding of a file. With
any other code units in a text of this file that the extraction does not look at, the bytes are read
as the same summary if the surrogates among the units are paired, and are refused because of the
text otherwise. -/
theorem read_withText (bytes : List UInt8) (summary : ClassSummary)
    (h : read bytes = .ok summary) :
    (∃ file rest, bytes = File.encode file ++ rest ∧ file.WellFormed ∧ file.Extracts summary) ∧
      ∀ (file : File) (rest : List UInt8), bytes = file.encode ++ rest → file.WellFormed →
        file.Extracts summary → ∀ (index : UInt16) (old : List UInt8),
        entryAt? file.entries index = some (.utf8 old) → ¬file.Uses index →
        ∀ units : List UInt16, units.length ≤ 21845 →
          read ((file.withText index (Text.ModifiedUtf8.encodeUnits units)).encode ++ rest) =
            if (Text.charsOfUnits? units).isSome then .ok summary
            else .error (.invalidText index.toNat) := by
  refine ⟨exists_file_of_read h, ?_⟩
  intro file rest _ hwell hextracts index old hold hunused units hlength
  have hshort := isShort_encodeUnits hlength
  have hdecode := Text.ModifiedUtf8.decode?_encodeUnits units
  cases hchars : Text.charsOfUnits? units with
  | some chars =>
    rw [hchars] at hdecode
    exact read_encode_append (hwell.withText hold ⟨hshort, by rw [hdecode]; rfl⟩)
      (hextracts.withText hold hunused _) rest
  | none =>
    rw [hchars] at hdecode
    exact read_withText_error hwell hold hshort hdecode rest

/-! ### A string literal

The class `A` has a native method `m` and a string literal `"x"`. -/

/-- A class with a string literal, whose text has the index 3. -/
def literalFile : File where
  minor := 0
  major := 52
  poolCount := 7
  entries := [.utf8 "A".toUTF8.data.toList, .classRef 1, .utf8 "x".toUTF8.data.toList,
    .other 8 [0, 3], .utf8 "m".toUTF8.data.toList, .utf8 "()V".toUTF8.data.toList]
  flags := 0
  thisIndex := 2
  superIndex := 0
  interfaces := []
  fields := []
  methods := [⟨0x100, 5, 6, []⟩]
  attributes := []

/-- What a header needs of it. -/
def literalSummary : ClassSummary :=
  ({ name := "A", superName := none } : ClassSummary).withMembers []
    [{ name := "m", types := ⟨[], .void⟩, isStatic := false }]

/-- The example is a class file of a supported version. -/
theorem wellFormed_literalFile : literalFile.WellFormed where
  supported := by decide
  fill := by simp [literalFile, Fill, Entry.width]
  entries := by
    have htexts : ∀ text ∈ ["A", "x", "m", "()V"],
        (Entry.utf8 text.toUTF8.data.toList).WellFormed := by
      simp only [Entry.WellFormed, IsShort]
      decide +kernel
    simp only [literalFile, List.forall_mem_cons] at htexts ⊢
    exact ⟨htexts.1, trivial, htexts.2.1, rfl, htexts.2.2.1, htexts.2.2.2.1, by simp⟩
  interfaces := by simp [literalFile, IsShort]
  fields := by simp [literalFile, IsShort]
  methods := by simp [literalFile, IsShort, Member.WellFormed]
  attributes := by simp [literalFile, IsShort]

/-- What a header needs of the example is its native method. -/
theorem extracts_literalFile : literalFile.Extracts literalSummary := by
  have hclass : classAt? literalFile.entries 2 = some "A" := by decide +kernel
  have hname : textAt? literalFile.entries 5 = some "m" := by decide +kernel
  have hdescriptor : textAt? literalFile.entries 6 = some "()V" := by decide +kernel
  have htypes : MethodDescriptor.parse "()V" = .ok ⟨[], .void⟩ := by cbv
  have hnative : NativeEntry literalFile.entries ⟨0x100, 5, 6, []⟩
      (some { name := "m", types := ⟨[], .void⟩, isStatic := false }) :=
    .native (by decide) hname (by decide) (by decide) hdescriptor htypes
  exact .intro hclass .root .nil (.cons hnative .nil)

/-- Nothing in the example uses the text of the literal. -/
theorem not_uses_literalFile : ¬literalFile.Uses 3 := by
  generalize hindex : (3 : UInt16) = index
  intro h
  cases h with
  | className h | superName h =>
    subst hindex
    revert h
    decide
  | attributeName hfield | fieldName hfield => cases hfield
  | methodName hmethod | methodDescriptor hmethod =>
    rw [List.mem_singleton.mp hmethod] at hindex
    revert hindex
    decide

/-- With a pair of surrogates in the literal the class is read as before. -/
theorem read_withText_literalFile :
    read literalFile.encode = .ok literalSummary ∧
      read (literalFile.withText 3
        (Text.ModifiedUtf8.encodeUnits [0xD83D, 0xDE00])).encode = .ok literalSummary := by
  have hliteral := read_encode_append wellFormed_literalFile extracts_literalFile []
  rw [List.append_nil] at hliteral
  have hread := (read_withText literalFile.encode literalSummary hliteral).2 literalFile []
    (List.append_nil _).symm wellFormed_literalFile extracts_literalFile 3 "x".toUTF8.data.toList
    (by decide +kernel) not_uses_literalFile [0xD83D, 0xDE00] (by decide)
  rw [List.append_nil] at hread
  exact ⟨hliteral, hread⟩

/-- With a surrogate that stands alone in the literal, which nothing looks at, the class cannot be
read. -/
theorem exists_unused_text_refused :
    literalFile.WellFormed ∧ read literalFile.encode = .ok literalSummary ∧
      entryAt? literalFile.entries 3 = some (.utf8 "x".toUTF8.data.toList) ∧
      ¬literalFile.Uses 3 ∧
      read (literalFile.withText 3 (Text.ModifiedUtf8.encodeUnits [0xD800])).encode ≠
        read literalFile.encode := by
  have hread := read_encode_append wellFormed_literalFile extracts_literalFile []
  rw [List.append_nil] at hread
  have herror : read (literalFile.withText 3 (Text.ModifiedUtf8.encodeUnits [0xD800])).encode =
      .error (.invalidText 3) := by
    decide +kernel
  refine ⟨wellFormed_literalFile, hread, by decide +kernel, not_uses_literalFile, ?_⟩
  rw [herror, hread]
  simp

end NativeHeaders.ClassFile
