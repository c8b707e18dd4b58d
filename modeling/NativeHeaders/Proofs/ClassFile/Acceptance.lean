import NativeHeaders.Proofs.ClassFile.Pool

/-! # Which files are read

`ClassFile.read` accepts exactly the byte sequences that start with the encoding of a well-formed
file from which a summary can be extracted, and gives that summary (`read_eq_ok_iff`). The readers
of attributes, fields and methods are shown to accept their formats first; a class is one after the
other. -/

namespace NativeHeaders.ClassFile

open Format

variable {bytes rest : List UInt8} {entries : List Entry}

/-- What a guard lets through. -/
theorem not_guard_iff {flag : Bool} {p : Prop} [Decidable p] :
    ¬(!flag || decide p) = true ↔ flag = true ∧ ¬p := by
  rw [Bool.or_eq_true, not_or, decide_eq_true_eq, Bool.not_eq_true', Bool.not_eq_false]

/-! ### Attributes -/

/-- The attribute as it is read. -/
def Format.Attribute.stored (item : Format.Attribute) : ClassFile.Attribute :=
  { nameIndex := item.nameIndex.toNat, body := item.body }

/-- The reader `readAttribute` reads the encodings of attributes, and keeps what is stored in them.
-/
theorem reads_readAttribute :
    Reads readAttribute Format.Attribute.encode Format.Attribute.WellFormed
      (fun item stored => stored = item.stored) := by
  intro bytes stored rest
  simp only [readAttribute, bind_eq_ok, readShort_eq_ok, readWord_eq_ok, takeBytes_eq_ok,
    pure_eq_ok]
  constructor
  · rintro ⟨_, _, ⟨nameIndex, rfl, rfl⟩, _, _, ⟨hlt, rfl⟩, body, _, ⟨rfl, rfl⟩, rfl, rfl⟩
    exact ⟨{ nameIndex, body }, by simp [Attribute.encode], hlt, rfl⟩
  · rintro ⟨⟨nameIndex, body⟩, rfl, hlt, rfl⟩
    refine ⟨nameIndex.toNat, numberBytes 4 body.length ++ (body ++ rest), ⟨nameIndex, rfl, ?_⟩,
      body.length, body ++ rest, ⟨hlt, rfl⟩, body, rest, ⟨rfl, rfl⟩, rfl, rfl⟩
    simp [Attribute.encode]

/-- Any attributes can be passed over, whatever they hold. -/
theorem exists_forall₂_stored (items : List Format.Attribute) :
    ∃ stored, List.Forall₂ (fun (item : Format.Attribute) stored => stored = item.stored) items
      stored := by
  refine ⟨items.map Attribute.stored, ?_⟩
  rw [List.forall₂_map_right_iff, List.forall₂_same]
  exact fun _ _ => rfl

/-! ### Fields -/

/-- Two bytes are those of an index. -/
theorem exists_index_of_length {body : List UInt8} (h : body.length = 2) :
    ∃ index : UInt16, body = numberBytes 2 index.toNat ∧ bigEndian body = index.toNat := by
  have hlt : bigEndian body < 2 ^ 16 := by
    have := bigEndian_lt body
    rwa [h] at this
  refine ⟨.ofNat (bigEndian body), ?_⟩
  rw [UInt16.toNat_ofNat_of_lt' hlt, ← h, numberBytes_bigEndian]
  exact ⟨rfl, rfl⟩

section FieldConstants

variable {field : Member} {item : Format.Attribute} {result : Option ConstantField}

/-- The attributes whose name matters are those of two bytes of a static field. -/
theorem followed_iff (field : Member) (item : Format.Attribute) :
    ¬(!isStatic field.flags.toNat || decide (item.stored.body.length ≠ 2)) = true ↔
      isStatic field.flags.toNat = true ∧ item.body.length = 2 :=
  not_guard_iff.trans (and_congr_right fun _ => not_not)

/-- What `fieldConstant?` finds is the constant of the field. -/
theorem fieldConstant_of_eq_ok
    (h : fieldConstant? (poolOf entries) field.flags.toNat field.nameIndex.toNat item.stored =
      .ok result) : FieldConstant entries field item result := by
  unfold fieldConstant? at h
  split at h
  · next hpassed =>
    cases h
    exact .passedOver fun hboth => (followed_iff field item).mpr hboth hpassed
  · next hfollowed =>
    obtain ⟨hstatic, hlength⟩ := (followed_iff field item).mp hfollowed
    obtain ⟨name, hname, h⟩ := Fallible.bind_eq_ok.mp h
    have hname := text_poolOf_eq_ok.mp hname
    split at h
    · next hne =>
      cases h
      exact .otherName hstatic hlength hname hne
    · next heq =>
      obtain rfl := not_not.mp heq
      obtain ⟨nameIndex, body⟩ := item
      obtain ⟨index, rfl, hindex⟩ := exists_index_of_length hlength
      obtain ⟨value, hvalue, h⟩ := Fallible.bind_eq_ok.mp h
      rw [Attribute.stored, hindex] at hvalue
      obtain ⟨entry, hentry, rfl⟩ := number?_poolOf_eq_ok.mp hvalue
      split at h
      · next hnumber =>
        cases h
        exact .notNumeric hstatic hname hentry hnumber
      · next value hnumber =>
        -- Only now the name of the field is looked up.
        obtain ⟨fieldName, hfield, h⟩ := Fallible.bind_eq_ok.mp h
        cases h
        exact .numeric hstatic hname hentry hnumber (text_poolOf_eq_ok.mp hfield)

/-- The constant of the field is what `fieldConstant?` finds, provided that the field has all that
the format asks for. -/
theorem fieldConstant?_eq_ok_of (h : FieldConstant entries field item result) :
    fieldConstant? (poolOf entries) field.flags.toNat field.nameIndex.toNat item.stored =
      .ok result := by
  have hbig : ∀ index : UInt16, bigEndian (numberBytes 2 index.toNat) = index.toNat :=
    fun index => bigEndian_numberBytes index.toNat_lt
  unfold fieldConstant?
  cases h with
  | passedOver hpassed =>
    rw [if_pos (not_not.mp (mt (followed_iff field item).mp hpassed)), Fallible.pure_eq_ok]
  | otherName hstatic hlength hname hne =>
    rw [if_neg ((followed_iff field item).mpr ⟨hstatic, hlength⟩), Fallible.bind_eq_ok]
    refine ⟨_, text_poolOf_eq_ok.mpr hname, ?_⟩
    rw [if_pos hne, Fallible.pure_eq_ok]
  | notNumeric hstatic hname hentry hnumber =>
    rw [if_neg ((followed_iff field _).mpr ⟨hstatic, length_numberBytes ..⟩), Fallible.bind_eq_ok]
    refine ⟨_, text_poolOf_eq_ok.mpr hname, ?_⟩
    rw [if_neg (not_not.mpr rfl), Fallible.bind_eq_ok, Attribute.stored, hbig]
    exact ⟨none, number?_poolOf_eq_ok.mpr ⟨_, hentry, hnumber⟩, rfl⟩
  | numeric hstatic hname hentry hnumber hfield =>
    rw [if_neg ((followed_iff field _).mpr ⟨hstatic, length_numberBytes ..⟩), Fallible.bind_eq_ok]
    refine ⟨_, text_poolOf_eq_ok.mpr hname, ?_⟩
    rw [if_neg (not_not.mpr rfl), Fallible.bind_eq_ok, Attribute.stored, hbig]
    refine ⟨some _, number?_poolOf_eq_ok.mpr ⟨_, hentry, hnumber⟩, ?_⟩
    exact Fallible.bind_eq_ok.mpr ⟨_, text_poolOf_eq_ok.mpr hfield, rfl⟩

/-- The bytes of an attribute say which constant the field has exactly as `FieldConstant` does. -/
theorem fieldConstant?_eq_ok :
    fieldConstant? (poolOf entries) field.flags.toNat field.nameIndex.toNat item.stored =
        .ok result ↔
      FieldConstant entries field item result :=
  ⟨fieldConstant_of_eq_ok, fieldConstant?_eq_ok_of⟩

end FieldConstants

/-- The bytes of a member, one part after the other. -/
theorem encode_append (member : Member) :
    member.encode ++ rest =
      numberBytes 2 member.flags.toNat ++ (numberBytes 2 member.nameIndex.toNat ++
        (numberBytes 2 member.descriptorIndex.toNat ++ (numberBytes 2 member.attributes.length ++
          (member.attributes.flatMap Attribute.encode ++ rest)))) := by
  simp [Member.encode, counted]

/-- The reader of fields accepts exactly the format of members, and finds the constants. -/
theorem reads_readField :
    Reads (readField (poolOf entries)) Member.encode Member.WellFormed
      (fun field found => ∃ constants,
        List.Forall₂ (FieldConstant entries field) field.attributes constants ∧
        constants.filterMap id = found) := by
  intro bytes found rest
  simp only [readField, bind_eq_ok, readShort_eq_ok, skip_eq_ok, pure_eq_ok,
    (reads_readAttribute.check _).times _ _ _ _]
  constructor
  · rintro ⟨_, _, ⟨flags, rfl, rfl⟩, _, _, ⟨nameIndex, rfl, rfl⟩, _, _,
      ⟨descriptor, rfl, hdescriptor⟩, _, _, ⟨count, rfl, rfl⟩, constants, _,
      ⟨items, rfl, ⟨hlength, hwells⟩, hmeans⟩, rfl, rfl⟩
    -- The descriptor was passed over, but any two bytes are those of an index.
    obtain ⟨descriptorIndex, rfl, -⟩ := exists_index_of_length hdescriptor
    refine ⟨{ flags, nameIndex, descriptorIndex, attributes := items }, ?_,
      ⟨isShort_of_length_eq hlength, hwells⟩, constants, hmeans.imp ?_, rfl⟩
    · rw [encode_append, hlength]
    · rintro item result ⟨_, rfl, h⟩
      exact fieldConstant?_eq_ok.mp h
  · rintro ⟨field, rfl, ⟨hshort, hwells⟩, constants, hconstants, rfl⟩
    have hcount := IsShort.toNat_length hshort
    refine ⟨_, _, ⟨field.flags, rfl, encode_append field⟩, _, _, ⟨field.nameIndex, rfl, rfl⟩,
      (), _, ⟨_, rfl, length_numberBytes ..⟩, _, _, ⟨.ofNat field.attributes.length, rfl, ?_⟩,
      constants, rest, ⟨field.attributes, rfl, ⟨hcount.symm, hwells⟩, hconstants.imp ?_⟩, rfl, rfl⟩
    · rw [hcount]
    · intro item result h
      exact ⟨_, rfl, fieldConstant?_eq_ok.mpr h⟩

/-! ### Methods -/

/-- A native method is found exactly if its name is a legal one that does not begin with an angle
bracket, and its descriptor is spelled out. -/
theorem nativeMethod_eq_ok (method : Member) {native : NativeMethod} :
    nativeMethod (poolOf entries) method.flags.toNat method.nameIndex.toNat
        method.descriptorIndex.toNat = .ok native ↔
      ∃ name descriptor types, textAt? entries method.nameIndex = some name ∧
        ClassName.isMethod name = true ∧ name.toList.head? ≠ some '<' ∧
        textAt? entries method.descriptorIndex = some descriptor ∧
        MethodDescriptor.parse descriptor = .ok types ∧
        native = { name, types, isStatic := isStatic method.flags.toNat } := by
  unfold nativeMethod
  constructor
  · intro h
    obtain ⟨name, hname, h⟩ := Fallible.bind_eq_ok.mp h
    split at h
    · cases h
    · next hlegal =>
      obtain ⟨hmethod, hhead⟩ := not_guard_iff.mp hlegal
      obtain ⟨descriptor, hdescriptor, h⟩ := Fallible.bind_eq_ok.mp h
      split at h
      · cases h
      · next types htypes =>
        cases h
        exact ⟨name, descriptor, types, text_poolOf_eq_ok.mp hname, hmethod, hhead,
          text_poolOf_eq_ok.mp hdescriptor, htypes, rfl⟩
  · rintro ⟨name, descriptor, types, hname, hmethod, hhead, hdescriptor, htypes, rfl⟩
    rw [Fallible.bind_eq_ok]
    refine ⟨name, text_poolOf_eq_ok.mpr hname, ?_⟩
    rw [if_neg (not_guard_iff.mpr ⟨hmethod, hhead⟩), Fallible.bind_eq_ok]
    refine ⟨descriptor, text_poolOf_eq_ok.mpr hdescriptor, ?_⟩
    rw [htypes]
    rfl

/-- Behind the count of the attributes nothing is read before them: a native method is looked up
in the pool, and any other method does not matter. -/
theorem readNative_eq_ok (method : Member) {result : Option NativeMethod} :
    (if isNative method.flags.toNat then
        some <$> nativeMethod (poolOf entries) method.flags.toNat method.nameIndex.toNat
          method.descriptorIndex.toNat
      else pure none : Reader (Option NativeMethod)) bytes = .ok (result, rest) ↔
      NativeEntry entries method result ∧ bytes = rest := by
  by_cases hnative : isNative method.flags.toNat = true
  · simp only [if_pos hnative, map_eq_ok, lift_eq_ok, nativeMethod_eq_ok method]
    constructor
    · rintro ⟨_, ⟨⟨name, descriptor, types, hname, hlegal, hhead, hdescriptor, htypes, rfl⟩, rfl⟩,
        rfl⟩
      exact ⟨.native hnative hname hlegal hhead hdescriptor htypes, rfl⟩
    · rintro ⟨hentry, rfl⟩
      cases hentry with
      | notNative hother => exact absurd hnative (by simp [hother])
      | native _ hname hlegal hhead hdescriptor htypes =>
        exact ⟨_, ⟨⟨_, _, _, hname, hlegal, hhead, hdescriptor, htypes, rfl⟩, rfl⟩, rfl⟩
  · rw [if_neg hnative, pure_eq_ok]
    constructor
    · rintro ⟨rfl, rfl⟩
      exact ⟨.notNative (Bool.eq_false_iff.mpr hnative), rfl⟩
    · rintro ⟨hentry, rfl⟩
      cases hentry with
      | notNative => exact ⟨rfl, rfl⟩
      | native h => exact absurd h hnative

/-- The reader of methods accepts exactly the format of members, and finds the native method. -/
theorem reads_readMethod :
    Reads (readMethod (poolOf entries)) Member.encode Member.WellFormed (NativeEntry entries) := by
  intro bytes result rest
  simp only [readMethod, bind_eq_ok, readShort_eq_ok, ite_bind_eq_ok]
  constructor
  · rintro ⟨_, _, ⟨flags, rfl, rfl⟩, _, _, ⟨nameIndex, rfl, rfl⟩, _, _,
      ⟨descriptorIndex, rfl, rfl⟩, _, left, ⟨count, rfl, rfl⟩, _, _, hnative, _, _, hread, hend⟩
    obtain ⟨items, rfl, ⟨hlength, hwells⟩, -⟩ := (reads_readAttribute.times _ _ _ _).mp hread
    obtain ⟨rfl, rfl⟩ := pure_eq_ok.mp hend
    let method : Member := { flags, nameIndex, descriptorIndex, attributes := items }
    obtain ⟨hentry, rfl⟩ := (readNative_eq_ok method).mp hnative
    refine ⟨method, ?_, ⟨isShort_of_length_eq hlength, hwells⟩, hentry⟩
    rw [encode_append, hlength]
  · rintro ⟨method, rfl, ⟨hshort, hwells⟩, hentry⟩
    have hcount := IsShort.toNat_length hshort
    obtain ⟨stored, hstored⟩ := exists_forall₂_stored method.attributes
    refine ⟨_, _, ⟨method.flags, rfl, encode_append method⟩, _, _, ⟨method.nameIndex, rfl, rfl⟩,
      _, _, ⟨method.descriptorIndex, rfl, rfl⟩, _, _,
      ⟨.ofNat method.attributes.length, rfl, by rw [hcount]⟩, result, _,
      (readNative_eq_ok method).mpr ⟨hentry, rfl⟩, stored, rest, ?_, rfl⟩
    exact (reads_readAttribute.times _ _ _ rest).mpr
      ⟨method.attributes, rfl, ⟨hcount.symm, hwells⟩, hstored⟩

/-! ### Classes -/

/-- The head that is read is the number of class files and a supported version. -/
theorem readHead_eq_ok {result : Unit} :
    readHead bytes = .ok (result, rest) ↔
      ∃ minor major : UInt16, (leastMajor ≤ major.toNat ∧ major.toNat ≤ greatestMajor) ∧
        bytes = numberBytes 4 magic ++ (numberBytes 2 minor.toNat ++
          (numberBytes 2 major.toNat ++ rest)) := by
  simp only [readHead, bind_eq_ok, readWord_eq_ok]
  constructor
  · rintro ⟨number, _, ⟨-, rfl⟩, h⟩
    by_cases hmagic : number = magic
    · subst hmagic
      simp only [ne_eq, not_true_eq_false, if_false, bind_eq_ok, readShort_eq_ok] at h
      obtain ⟨_, _, ⟨minor, rfl, rfl⟩, _, _, ⟨major, rfl, rfl⟩, h⟩ := h
      by_cases hmajor : major.toNat < leastMajor ∨ greatestMajor < major.toNat
      · rw [if_pos hmajor] at h
        exact absurd h throw_ne_ok
      · rw [if_neg hmajor, pure_eq_ok] at h
        obtain ⟨-, rfl⟩ := h
        exact ⟨minor, major, by omega, rfl⟩
    · rw [if_pos hmagic, bind_eq_ok] at h
      obtain ⟨_, _, h, -⟩ := h
      exact absurd h throw_ne_ok
  · rintro ⟨minor, major, hmajor, rfl⟩
    refine ⟨magic, _, ⟨by decide, rfl⟩, ?_⟩
    simp only [ne_eq, not_true_eq_false, if_false, bind_eq_ok, readShort_eq_ok]
    refine ⟨_, _, ⟨minor, rfl, rfl⟩, _, _, ⟨major, rfl, rfl⟩, ?_⟩
    rw [if_neg (by omega)]
    rfl

/-- The bytes of indices, as many as they are. -/
theorem exists_indices_of_length {taken : List UInt8} {count : Nat} (h : taken.length = 2 * count) :
    ∃ indices : List UInt16,
      taken = indices.flatMap (fun index => numberBytes 2 index.toNat) ∧
        indices.length = count := by
  induction count generalizing taken with
  | zero => exact ⟨[], List.length_eq_zero_iff.mp h, rfl⟩
  | succ count ih =>
    have htake : (taken.take 2).length = 2 := by
      rw [List.length_take]
      omega
    have hdrop : (taken.drop 2).length = 2 * count := by
      rw [List.length_drop]
      omega
    obtain ⟨index, hindex, -⟩ := exists_index_of_length htake
    obtain ⟨indices, hindices, hlength⟩ := ih hdrop
    refine ⟨index :: indices, ?_, by rw [List.length_cons, hlength]⟩
    rw [List.flatMap_cons, ← hindex, ← hindices, List.take_append_drop]

/-- Indices take up two bytes each. -/
theorem length_flatMap_index (indices : List UInt16) :
    (indices.flatMap fun index => numberBytes 2 index.toNat).length = 2 * indices.length := by
  induction indices with
  | nil => rfl
  | cons index indices ih =>
    rw [List.flatMap_cons, List.length_append, ih, length_numberBytes, List.length_cons]
    omega

/-- The name of the superclass is looked up unless its index is 0, and nothing is read. -/
theorem readSuper_eq_ok {index : UInt16} {superName : Option String} :
    (if index.toNat = 0 then pure none else some <$> (poolOf entries).className index.toNat :
        Reader (Option String)) bytes = .ok (superName, rest) ↔
      SuperName entries index superName ∧ bytes = rest := by
  have hzero : index.toNat = 0 ↔ index = 0 := by
    rw [← UInt16.toNat_inj]
    rfl
  by_cases hroot : index.toNat = 0
  · rw [if_pos hroot, pure_eq_ok]
    obtain rfl := hzero.mp hroot
    constructor
    · rintro ⟨rfl, rfl⟩
      exact ⟨.root, rfl⟩
    · rintro ⟨hsuper, rfl⟩
      cases hsuper with
      | root => exact ⟨rfl, rfl⟩
      | named hindex => exact absurd rfl hindex
  · simp only [if_neg hroot, map_eq_ok, lift_eq_ok, className_poolOf_eq_ok]
    constructor
    · rintro ⟨name, ⟨h, rfl⟩, rfl⟩
      exact ⟨.named (mt hzero.mpr hroot) h, rfl⟩
    · rintro ⟨hsuper, rfl⟩
      cases hsuper with
      | root => exact absurd rfl hroot
      | named _ h => exact ⟨_, ⟨h, rfl⟩, rfl⟩

/-- The flags, the names of the class and its superclass, and the interfaces are read exactly from
their encodings, one after the other. -/
theorem readNames_eq_ok {summary : ClassSummary} :
    readNames (poolOf entries) bytes = .ok (summary, rest) ↔
      ∃ (flags thisIndex superIndex : UInt16) (interfaces : List UInt16) (name : String)
        (superName : Option String),
        bytes = numberBytes 2 flags.toNat ++ (numberBytes 2 thisIndex.toNat ++
          (numberBytes 2 superIndex.toNat ++
            (counted (fun index : UInt16 => numberBytes 2 index.toNat) interfaces ++ rest))) ∧
        IsShort interfaces ∧ classAt? entries thisIndex = some name ∧
        SuperName entries superIndex superName ∧ summary = { name, superName } := by
  simp only [readNames, bind_eq_ok, readShort_eq_ok, skip_eq_ok, lift_eq_ok, pure_eq_ok,
    ite_bind_eq_ok]
  constructor
  · rintro ⟨_, _, ⟨flags, rfl, hflags⟩, _, _, ⟨thisIndex, rfl, rfl⟩, _, _, ⟨superIndex, rfl, rfl⟩,
      _, _, ⟨count, rfl, rfl⟩, _, _, ⟨taken, rfl, htaken⟩, name, _, ⟨hname, rfl⟩, superName, _,
      hread, rfl, rfl⟩
    obtain ⟨hsuper, rfl⟩ := readSuper_eq_ok.mp hread
    obtain ⟨flags, rfl, -⟩ := exists_index_of_length hflags
    -- The interfaces were passed over as bytes, twice as many as their count.
    obtain ⟨interfaces, rfl, hlength⟩ := exists_indices_of_length htaken
    refine ⟨flags, thisIndex, superIndex, interfaces, name, superName, ?_,
      isShort_of_length_eq hlength, className_poolOf_eq_ok.mp hname, hsuper, rfl⟩
    rw [counted, hlength, List.append_assoc]
  · rintro ⟨flags, thisIndex, superIndex, interfaces, name, superName, rfl, hshort, hname, hsuper,
      rfl⟩
    have hcount := IsShort.toNat_length hshort
    refine ⟨(), _, ⟨_, rfl, length_numberBytes ..⟩, _, _, ⟨thisIndex, rfl, rfl⟩, _, _,
      ⟨superIndex, rfl, rfl⟩, _,
      interfaces.flatMap (fun index => numberBytes 2 index.toNat) ++ rest,
      ⟨.ofNat interfaces.length, rfl, ?_⟩, (), rest, ⟨_, rfl, ?_⟩, name, rest,
      ⟨className_poolOf_eq_ok.mpr hname, rfl⟩, superName, rest,
      readSuper_eq_ok.mpr ⟨hsuper, rfl⟩, rfl, rfl⟩
    · rw [counted, hcount, List.append_assoc]
    · rw [length_flatMap_index, hcount]

/-- The meanings of things, one after the other, where each is a function of something related to
the thing. -/
theorem forall₂_exists_map {X Y Z : Type} {R : X → Y → Prop} {f : Y → Z} {things : List X}
    {results : List Z} :
    List.Forall₂ (fun thing result => ∃ found, R thing found ∧ f found = result) things results ↔
      ∃ founds, List.Forall₂ R things founds ∧ founds.map f = results := by
  constructor
  · intro h
    induction h with
    | nil => exact ⟨[], .nil, rfl⟩
    | cons hhead _ ih =>
      obtain ⟨found, hfound, rfl⟩ := hhead
      obtain ⟨founds, hfounds, rfl⟩ := ih
      exact ⟨found :: founds, .cons hfound hfounds, rfl⟩
  · rintro ⟨founds, hfounds, rfl⟩
    rw [List.forall₂_map_right_iff]
    exact hfounds.imp fun _ found h => ⟨found, h, rfl⟩

/-- The bytes of a file, one part after the other. -/
theorem encode_file_append (file : File) :
    file.encode ++ rest =
      numberBytes 4 magic ++ (numberBytes 2 file.minor.toNat ++ (numberBytes 2 file.major.toNat ++
        (numberBytes 2 file.poolCount.toNat ++ file.entries.flatMap Entry.encode ++
          (numberBytes 2 file.flags.toNat ++ (numberBytes 2 file.thisIndex.toNat ++
            (numberBytes 2 file.superIndex.toNat ++
              (counted (fun index : UInt16 => numberBytes 2 index.toNat) file.interfaces ++
                (counted Member.encode file.fields ++ (counted Member.encode file.methods ++
                  (counted Attribute.encode file.attributes ++ rest)))))))))) := by
  simp [File.encode]

/-- What is read as a class file is the encoding of one, whose parts are taken off one after the
other. -/
theorem exists_file_of_readClass {summary : ClassSummary}
    (h : readClass bytes = .ok (summary, rest)) :
    ∃ file : File, bytes = file.encode ++ rest ∧ file.WellFormed ∧ file.Extracts summary := by
  rw [readClass, bind_eq_ok] at h
  obtain ⟨_, _, hhead, h⟩ := h
  obtain ⟨minor, major, hmajor, rfl⟩ := readHead_eq_ok.mp hhead
  obtain ⟨_, _, hpool, h⟩ := bind_eq_ok.mp h
  obtain ⟨poolCount, entries, rfl, hfill, hentries, rfl⟩ := readPool_eq_ok.mp hpool
  obtain ⟨_, _, hnames, h⟩ := bind_eq_ok.mp h
  obtain ⟨flags, thisIndex, superIndex, interfaces, name, superName, rfl, hinterfaces, hname,
    hsuper, rfl⟩ := readNames_eq_ok.mp hnames
  obtain ⟨fields, _, _, rfl, hfields, hfound, h⟩ := reads_readField.countedTimes_bind.mp h
  obtain ⟨methods, natives, _, rfl, hmethods, hnatives, h⟩ :=
    reads_readMethod.countedTimes_bind.mp h
  obtain ⟨_, _, hread, hend⟩ := bind_eq_ok.mp h
  obtain ⟨attributes, rfl, hattributes, -⟩ := (reads_readAttribute.countedTimes _ _ _).mp hread
  obtain ⟨rfl, rfl⟩ := pure_eq_ok.mp hend
  obtain ⟨constants, hconstants, rfl⟩ := forall₂_exists_map.mp hfound
  refine ⟨{ minor, major, poolCount, entries, flags, thisIndex, superIndex, interfaces, fields,
            methods, attributes }, ?_, ?_, ?_⟩
  · rw [encode_file_append]
  · exact ⟨hmajor, hfill, hentries, hinterfaces, hfields, hmethods, hattributes⟩
  · rw [← List.filterMap_flatten]
    exact .intro hname hsuper hconstants hnatives

/-- The encoding of a class file is read, and what stands behind it is left. -/
theorem readClass_encode_append {file : File} {summary : ClassSummary} (hwell : file.WellFormed)
    (h : file.Extracts summary) (rest : List UInt8) :
    readClass (file.encode ++ rest) = .ok (summary, rest) := by
  obtain @⟨name, superName, constants, natives, hname, hsuper, hconstants, hnatives⟩ := h
  have hfields := forall₂_exists_map.mpr
    ⟨constants, hconstants, Eq.refl (constants.map (List.filterMap id))⟩
  obtain ⟨stored, hstored⟩ := exists_forall₂_stored file.attributes
  rw [readClass, bind_eq_ok, encode_file_append]
  refine ⟨(), _, readHead_eq_ok.mpr ⟨file.minor, file.major, hwell.supported, rfl⟩, ?_⟩
  refine bind_eq_ok.mpr ⟨_, _, readPool_eq_ok.mpr
    ⟨file.poolCount, file.entries, rfl, hwell.fill, hwell.entries, rfl⟩, ?_⟩
  refine bind_eq_ok.mpr ⟨_, _, readNames_eq_ok.mpr
    ⟨file.flags, file.thisIndex, file.superIndex, file.interfaces, _, _, rfl, hwell.interfaces,
      hname, hsuper, rfl⟩, ?_⟩
  refine reads_readField.countedTimes_bind.mpr ⟨file.fields, _, _, rfl, hwell.fields, hfields, ?_⟩
  refine reads_readMethod.countedTimes_bind.mpr
    ⟨file.methods, _, _, rfl, hwell.methods, hnatives, ?_⟩
  refine bind_eq_ok.mpr ⟨stored, rest, (reads_readAttribute.countedTimes _ _ _).mpr
    ⟨file.attributes, rfl, hwell.attributes, hstored⟩, ?_⟩
  rw [← List.filterMap_flatten]
  rfl

/-- **Class files are read off the front of bytes exactly from their encodings.** -/
theorem readClass_eq_ok {summary : ClassSummary} :
    readClass bytes = .ok (summary, rest) ↔
      ∃ file : File, bytes = file.encode ++ rest ∧ file.WellFormed ∧ file.Extracts summary := by
  constructor
  · exact exists_file_of_readClass
  · rintro ⟨file, rfl, hwell, h⟩
    exact readClass_encode_append hwell h rest

/-- What is read is the encoding of a file, whatever stands behind it. -/
theorem exists_file_of_read {summary : ClassSummary} (h : read bytes = .ok summary) :
    ∃ file rest, bytes = File.encode file ++ rest ∧ file.WellFormed ∧ file.Extracts summary := by
  rw [read, Fallible.bind_eq_ok] at h
  obtain ⟨⟨found, rest⟩, hclass, hfound⟩ := h
  cases hfound
  obtain ⟨file, hbytes, hwell, hextracts⟩ := readClass_eq_ok.mp hclass
  exact ⟨file, rest, hbytes, hwell, hextracts⟩

/-- A file is read as what can be extracted of it. -/
theorem read_encode_append {file : File} {summary : ClassSummary} (hwell : file.WellFormed)
    (hextracts : file.Extracts summary) (rest : List UInt8) :
    read (file.encode ++ rest) = .ok summary := by
  rw [read, Fallible.bind_eq_ok]
  exact ⟨(summary, rest), readClass_eq_ok.mpr ⟨file, rfl, hwell, hextracts⟩, rfl⟩

/-- **A class file is read exactly if it follows the format.** Reading bytes gives a summary if and
only if the bytes start with the encoding of a well-formed file, and the summary is what can be
extracted of that file. -/
theorem read_eq_ok_iff (bytes : List UInt8) (summary : ClassSummary) :
    read bytes = .ok summary ↔
      ∃ file : File, file.WellFormed ∧ (∃ rest, bytes = file.encode ++ rest) ∧
        file.Extracts summary := by
  rw [read, Fallible.bind_eq_ok]
  constructor
  · rintro ⟨⟨found, rest⟩, hclass, hfound⟩
    cases hfound
    obtain ⟨file, hbytes, hwell, h⟩ := readClass_eq_ok.mp hclass
    exact ⟨file, hwell, ⟨rest, hbytes⟩, h⟩
  · rintro ⟨file, hwell, ⟨rest, hbytes⟩, h⟩
    exact ⟨(summary, rest), readClass_eq_ok.mpr ⟨file, hbytes, hwell, h⟩, rfl⟩

end NativeHeaders.ClassFile
