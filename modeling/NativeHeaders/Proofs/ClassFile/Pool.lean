import NativeHeaders.Proofs.ClassFile.Reading

/-! # Reading the constant pool

The pool that is read holds the slots of entries one after the other, behind the unused slot 0.
Looking up a slot by position finds an entry exactly where counting slots finds one; between the
first slots of two entries there is at most the second slot of a wide constant, which is unusable.
-/

namespace NativeHeaders.ClassFile

open Format

variable {bytes rest : List UInt8} {entries : List Entry} {index : UInt16}

namespace Format

/-- What the pool keeps of an entry. -/
def Entry.constant : Entry → Constant
  | .utf8 bytes => (Text.ModifiedUtf8.decode? bytes).elim .other .utf8
  | .integer bits => .number (.int bits.toInt32)
  | .float bits => .number (.float bits)
  | .long bits => .number (.long bits.toInt64)
  | .double bits => .number (.double bits)
  | .classRef nameIndex => .classRef nameIndex.toNat
  | .other _ _ => .other

/-- The constant of an entry takes up as many slots as the entry is wide. -/
@[simp] theorem Entry.length_slots_constant (entry : Entry) :
    entry.constant.slots.length = entry.width := by
  cases entry with
  | utf8 bytes =>
    cases h : Text.ModifiedUtf8.decode? bytes <;> simp [constant, h, Constant.slots, width]
  | _ => rfl

/-- No entry stands for the unusable slot behind a wide constant. -/
theorem Entry.constant_ne_unusable (entry : Entry) : entry.constant ≠ .unusable := by
  cases entry with
  | utf8 bytes => cases h : Text.ModifiedUtf8.decode? bytes <;> simp [constant, h]
  | _ => rintro ⟨⟩

/-- Behind its first slot an entry has at most one more, and that one is unusable. -/
theorem Entry.slots_constant (entry : Entry) :
    entry.constant.slots = [entry.constant] ∨
      entry.constant.slots = [entry.constant, .unusable] := by
  cases entry with
  | utf8 bytes => cases h : Text.ModifiedUtf8.decode? bytes <;> simp [constant, h, Constant.slots]
  | _ => simp [constant, Constant.slots]

end Format

/-! ### Entries -/

/-- An entry of another kind is read by passing over the bytes behind its tag. -/
theorem skip_other_eq_ok {tag length : Nat} {constant : Constant}
    (hlength : Entry.otherLength? tag = some length) :
    (do skip length; return Constant.other : Reader Constant) bytes = .ok (constant, rest) ↔
      ∃ payload, bytes = payload ++ rest ∧ (Entry.other tag payload).WellFormed ∧
        constant = .other := by
  simp only [bind_eq_ok, skip_eq_ok, pure_eq_ok, Entry.WellFormed, hlength]
  constructor
  · rintro ⟨_, _, ⟨payload, rfl, rfl⟩, rfl, rfl⟩
    exact ⟨payload, rfl, rfl, rfl⟩
  · rintro ⟨payload, rfl, ⟨⟩, rfl⟩
    exact ⟨(), rest, ⟨payload, rfl, rfl⟩, rfl, rfl⟩

/-- Four bytes are read as the bits of a number, whichever bits they are. -/
theorem readWord_eq_ok_bits {number : Nat} :
    readWord bytes = .ok (number, rest) ↔
      ∃ bits : UInt32, number = bits.toNat ∧ bytes = numberBytes 4 bits.toNat ++ rest :=
  readNumber_eq_ok_word UInt32.toNat UInt32.toNat_lt
    fun number h => ⟨.ofNat number, UInt32.toNat_ofNat_of_lt' h⟩

/-- Eight bytes are read as the bits of a number, whichever bits they are. -/
theorem readNumber_eight_eq_ok {number : Nat} :
    readNumber 8 bytes = .ok (number, rest) ↔
      ∃ bits : UInt64, number = bits.toNat ∧ bytes = numberBytes 8 bits.toNat ++ rest :=
  readNumber_eq_ok_word UInt64.toNat UInt64.toNat_lt
    fun number h => ⟨.ofNat number, UInt64.toNat_ofNat_of_lt' h⟩

/-- Behind the tag of a text its bytes are counted, and they have to be those of a text. -/
theorem exists_utf8_of_read {slot : Nat} {constant : Constant}
    (h : (do
      let length ← readShort
      let text ← takeBytes length
      match Text.ModifiedUtf8.decode? text with
      | some decoded => return .utf8 decoded
      | none => throw (.invalidText slot) : Reader Constant) bytes = .ok (constant, rest)) :
    ∃ entry : Entry, 1 = entry.tag ∧ bytes = entry.payload ++ rest ∧ entry.WellFormed ∧
      constant = entry.constant := by
  simp only [bind_eq_ok, readShort, readNumber_eq_ok, takeBytes_eq_ok] at h
  obtain ⟨length, _, ⟨hlt, rfl⟩, text, left, ⟨rfl, rfl⟩, h⟩ := h
  cases hdecoded : Text.ModifiedUtf8.decode? text with
  | none =>
    rw [hdecoded] at h
    exact absurd h throw_ne_ok
  | some decoded =>
    rw [hdecoded] at h
    obtain ⟨rfl, rfl⟩ := pure_eq_ok.mp h
    refine ⟨.utf8 text, rfl, by simp [Entry.payload], ⟨hlt, ?_⟩, ?_⟩
    · rw [hdecoded]
      rfl
    · rw [Entry.constant, hdecoded]
      rfl

/-- What is read behind a tag is the payload of an entry with that tag. -/
theorem exists_entry_of_readConstant {slot : Nat} {constant : Constant}
    (h : readConstant slot bytes = .ok (constant, rest)) :
    ∃ entry : Entry, bytes = entry.encode ++ rest ∧ entry.WellFormed ∧
      constant = entry.constant := by
  rw [readConstant, bind_eq_ok] at h
  obtain ⟨tag, left, htag, h⟩ := h
  obtain ⟨-, rfl⟩ := readNumber_eq_ok.mp htag
  suffices hpayload : ∃ entry : Entry, tag = entry.tag ∧ left = entry.payload ++ rest ∧
      entry.WellFormed ∧ constant = entry.constant by
    obtain ⟨entry, rfl, rfl, hwell, rfl⟩ := hpayload
    exact ⟨entry, by rw [Entry.encode, List.append_assoc], hwell, rfl⟩
  -- A tag of another kind leaves a payload of the length that the tag asks for.
  have hother : ∀ length, Entry.otherLength? tag = some length →
      (do skip length; return Constant.other : Reader Constant) left = .ok (constant, rest) →
      ∃ entry : Entry, tag = entry.tag ∧ left = entry.payload ++ rest ∧ entry.WellFormed ∧
        constant = entry.constant := by
    intro length hlength hskip
    obtain ⟨payload, rfl, hwell, rfl⟩ := (skip_other_eq_ok hlength).mp hskip
    exact ⟨.other tag payload, rfl, rfl, hwell, rfl⟩
  -- A case for each tag that is told apart, then those of the other kinds.
  split at h
  case h_1 => exact exists_utf8_of_read h
  case h_2 =>
    simp only [bind_eq_ok, readWord_eq_ok_bits, pure_eq_ok] at h
    obtain ⟨_, _, ⟨bits, rfl, rfl⟩, rfl, rfl⟩ := h
    exact ⟨.integer bits, rfl, rfl, trivial, by simp [Entry.constant]⟩
  case h_3 =>
    simp only [bind_eq_ok, readWord_eq_ok_bits, pure_eq_ok] at h
    obtain ⟨_, _, ⟨bits, rfl, rfl⟩, rfl, rfl⟩ := h
    exact ⟨.float bits, rfl, rfl, trivial, by simp [Entry.constant]⟩
  case h_4 =>
    simp only [bind_eq_ok, readNumber_eight_eq_ok, pure_eq_ok] at h
    obtain ⟨_, _, ⟨bits, rfl, rfl⟩, rfl, rfl⟩ := h
    exact ⟨.long bits, rfl, rfl, trivial, by simp [Entry.constant]⟩
  case h_5 =>
    simp only [bind_eq_ok, readNumber_eight_eq_ok, pure_eq_ok] at h
    obtain ⟨_, _, ⟨bits, rfl, rfl⟩, rfl, rfl⟩ := h
    exact ⟨.double bits, rfl, rfl, trivial, by simp [Entry.constant]⟩
  case h_6 =>
    simp only [bind_eq_ok, readShort_eq_ok, pure_eq_ok] at h
    obtain ⟨_, _, ⟨nameIndex, rfl, rfl⟩, rfl, rfl⟩ := h
    exact ⟨.classRef nameIndex, rfl, rfl, trivial, rfl⟩
  case h_18 => exact absurd h throw_ne_ok
  all_goals exact hother _ rfl h

/-- A tag takes one byte. -/
theorem Format.Entry.tag_lt {entry : Entry} (hwell : entry.WellFormed) : entry.tag < 256 := by
  cases entry with
  | other tag payload =>
    change Entry.otherLength? tag = some payload.length at hwell
    unfold Entry.otherLength? at hwell
    split at hwell
    case h_12 => cases hwell
    all_goals simp [Entry.tag]
  | _ => simp [Entry.tag]

/-- An entry is read back from its bytes. -/
theorem readConstant_encode {slot : Nat} {entry : Entry} (hwell : entry.WellFormed) :
    readConstant slot (entry.encode ++ rest) = .ok (entry.constant, rest) := by
  rw [readConstant, bind_eq_ok, Entry.encode, List.append_assoc]
  refine ⟨entry.tag, entry.payload ++ rest, readNumber_eq_ok.mpr ⟨Entry.tag_lt hwell, rfl⟩, ?_⟩
  cases entry with
  | utf8 text =>
    obtain ⟨hshort, hdecodes⟩ := hwell
    obtain ⟨decoded, hdecoded⟩ := Option.isSome_iff_exists.mp hdecodes
    simp only [Entry.tag, Entry.payload, bind_eq_ok, readShort, readNumber_eq_ok, takeBytes_eq_ok]
    refine ⟨text.length, text ++ rest, ⟨hshort, List.append_assoc ..⟩, text, rest, ⟨rfl, rfl⟩, ?_⟩
    rw [hdecoded, Entry.constant, hdecoded]
    rfl
  | integer bits | float bits =>
    simp only [Entry.tag, bind_eq_ok, readWord_eq_ok_bits, pure_eq_ok]
    exact ⟨bits.toNat, rest, ⟨bits, rfl, rfl⟩, by simp [Entry.constant], rfl⟩
  | long bits | double bits =>
    simp only [Entry.tag, bind_eq_ok, readNumber_eight_eq_ok, pure_eq_ok]
    exact ⟨bits.toNat, rest, ⟨bits, rfl, rfl⟩, by simp [Entry.constant], rfl⟩
  | classRef nameIndex =>
    simp only [Entry.tag, bind_eq_ok, readShort_eq_ok, pure_eq_ok]
    exact ⟨nameIndex.toNat, rest, ⟨nameIndex, rfl, rfl⟩, rfl, rfl⟩
  | other tag payload =>
    have hskip : (do skip payload.length; return Constant.other : Reader Constant)
        (payload ++ rest) = .ok (.other, rest) :=
      (skip_other_eq_ok hwell).mpr ⟨payload, rfl, hwell, rfl⟩
    change Entry.otherLength? tag = some payload.length at hwell
    unfold Entry.otherLength? at hwell
    split at hwell
    case h_12 => cases hwell
    all_goals
      rw [← Option.some.inj hwell] at hskip
      exact hskip

/-- The reader of entries accepts exactly the format of entries. -/
theorem reads_readConstant (slot : Nat) :
    Reads (readConstant slot) Entry.encode Entry.WellFormed
      (fun entry constant => constant = entry.constant) := by
  intro bytes constant rest
  constructor
  · exact exists_entry_of_readConstant
  · rintro ⟨entry, rfl, hwell, rfl⟩
    exact readConstant_encode hwell

/-! ### Slots -/

/-- The slots of entries, one entry after the other. -/
def Format.slotsOf (entries : List Entry) : List Constant := entries.flatMap (·.constant.slots)

/-- The pool with the given entries. -/
def Format.poolOf (entries : List Entry) : ConstantPool :=
  #[Constant.unusable] ++ slotsOf entries

/-- An entry makes the pool larger by its width. -/
theorem size_append_slots (pool : ConstantPool) (entry : Entry) :
    (pool ++ entry.constant.slots).size = pool.size + entry.width := by
  rw [← Array.length_toList, Array.toList_appendList, List.length_append,
    Entry.length_slots_constant, Array.length_toList]

/-- The slots of the first entry come first. -/
theorem append_slotsOf_cons (pool : ConstantPool) (entry : Entry) (entries : List Entry) :
    pool ++ slotsOf (entry :: entries) = pool ++ entry.constant.slots ++ slotsOf entries := by
  apply Array.toList_inj.mp
  simp [slotsOf]

/-- The loop adds the slots of entries until the pool is full. -/
theorem readSlots_eq_ok {count : Nat} {pool result : ConstantPool} :
    readSlots count pool bytes = .ok (result, rest) ↔
      ∃ entries : List Entry, bytes = entries.flatMap Entry.encode ++ rest ∧
        Fill count pool.size entries ∧ (∀ entry ∈ entries, entry.WellFormed) ∧
        result = pool ++ slotsOf entries := by
  -- By induction along the loop: a turn adds the slots of one entry and goes on behind them.
  induction pool using readSlots.induct count generalizing bytes with
  | case1 pool hlt ih =>
    rw [readSlots, if_pos hlt, bind_eq_ok]
    constructor
    · rintro ⟨constant, left, hconstant, h⟩
      obtain ⟨entry, rfl, hwell, rfl⟩ := (reads_readConstant _ _ _ _).mp hconstant
      obtain ⟨entries, rfl, hfill, hwells, rfl⟩ := (ih _).mp h
      refine ⟨entry :: entries, by simp, ⟨hlt, ?_⟩, ?_, (append_slotsOf_cons ..).symm⟩
      · rw [← size_append_slots]
        exact hfill
      · exact List.forall_mem_cons.mpr ⟨hwell, hwells⟩
    · rintro ⟨entries, rfl, hfill, hwells, rfl⟩
      cases entries with
      | nil => exact absurd hlt (Nat.not_lt.mpr hfill)
      | cons entry entries =>
        obtain ⟨hwell, hwells⟩ := List.forall_mem_cons.mp hwells
        refine ⟨entry.constant, entries.flatMap Entry.encode ++ rest, ?_, ?_⟩
        · rw [List.flatMap_cons, List.append_assoc]
          exact readConstant_encode hwell
        · refine (ih _).mpr ⟨entries, rfl, ?_, hwells, append_slotsOf_cons pool entry entries⟩
          rw [size_append_slots]
          exact hfill.2
  | case2 pool hge =>
    rw [readSlots, if_neg hge, pure_eq_ok]
    constructor
    · rintro ⟨rfl, rfl⟩
      exact ⟨[], rfl, Nat.not_lt.mp hge, by simp, by simp [slotsOf]⟩
    · rintro ⟨entries, rfl, hfill, -, rfl⟩
      cases entries with
      | nil => simp [slotsOf]
      | cons entry entries => exact absurd hfill.1 hge

/-- The reader of pools accepts exactly a number of slots and the entries that it asks for. -/
theorem readPool_eq_ok {pool : ConstantPool} :
    readPool bytes = .ok (pool, rest) ↔
      ∃ (count : UInt16) (entries : List Entry),
        bytes = numberBytes 2 count.toNat ++ entries.flatMap Entry.encode ++ rest ∧
        Fill count.toNat 1 entries ∧ (∀ entry ∈ entries, entry.WellFormed) ∧
        pool = poolOf entries := by
  simp only [readPool, bind_eq_ok, readShort_eq_ok, readSlots_eq_ok]
  constructor
  · rintro ⟨_, _, ⟨count, rfl, rfl⟩, entries, rfl, hfill, hwells, rfl⟩
    exact ⟨count, entries, by simp, hfill, hwells, rfl⟩
  · rintro ⟨count, entries, rfl, hfill, hwells, rfl⟩
    refine ⟨count.toNat, entries.flatMap Entry.encode ++ rest, ⟨count, rfl, ?_⟩, entries, rfl,
      hfill, hwells, rfl⟩
    rw [List.append_assoc]

/-! ### Indices -/

/-- No entry starts in front of the first one. -/
theorem entryFrom?_eq_none_of_lt {slot position : Nat} (h : position < slot) :
    entryFrom? slot entries position = none := by
  induction entries generalizing slot with
  | nil => rfl
  | cons entry entries ih =>
    rw [entryFrom?, if_neg (Nat.ne_of_lt h)]
    exact ih (Nat.lt_add_right entry.width h)

/-- What is at a position among the slots of entries, unless it is unusable, is what the pool keeps
of the entry that starts there. -/
theorem getElem?_slotsOf (slot offset : Nat) {constant : Constant} (h : constant ≠ .unusable) :
    (slotsOf entries)[offset]? = some constant ↔
      ∃ entry, entryFrom? slot entries (slot + offset) = some entry ∧
        entry.constant = constant := by
  induction entries generalizing slot offset with
  | nil => simp [slotsOf, entryFrom?]
  | cons entry entries ih =>
    have hlength := entry.length_slots_constant
    rw [slotsOf, List.flatMap_cons, ← slotsOf, entryFrom?]
    by_cases hfirst : offset = 0
    · subst hfirst
      rw [if_pos (Nat.add_zero slot)]
      obtain hslots | hslots := entry.slots_constant <;> simp [hslots]
    · rw [if_neg (by omega)]
      by_cases hlt : offset < entry.width
      · -- The offset is that of the second slot, which is unusable and where no other entry starts.
        rw [List.getElem?_append_left (by omega), entryFrom?_eq_none_of_lt (by omega)]
        obtain hslots | hslots := entry.slots_constant
        · rw [hslots, List.length_singleton] at hlength
          omega
        · rw [hslots, show offset = 1 by simp [hslots] at hlength; omega]
          simpa using h.symm
      · rw [List.getElem?_append_right (by omega), hlength, ih (slot + entry.width),
          show slot + entry.width + (offset - entry.width) = slot + offset by omega]

/-- A slot of the pool that is not unusable is that of an entry. -/
theorem slot_poolOf_eq_ok {constant : Constant} (h : constant ≠ .unusable) :
    (poolOf entries).slot index.toNat = .ok constant ↔
      ∃ entry, entryAt? entries index = some entry ∧ entry.constant = constant := by
  have hslot : (poolOf entries).slot index.toNat = .ok constant ↔
      (poolOf entries)[index.toNat]? = some constant := by
    unfold ConstantPool.slot
    split
    · next hsome => simp [hsome]
    · next hnone => simp [hnone]
  rw [hslot, ← Array.getElem?_toList, poolOf, Array.toList_appendList, entryAt?]
  -- The unused slot 0 stands in front of the slots of the entries.
  cases hindex : index.toNat with
  | zero =>
    rw [entryFrom?_eq_none_of_lt Nat.zero_lt_one]
    simpa using h.symm
  | succ offset =>
    rw [Nat.add_comm offset 1, ← getElem?_slotsOf 1 offset h]
    simp [Nat.add_comm 1 offset]

/-- The constant is a text exactly if the entry has this text. -/
theorem Format.Entry.constant_eq_utf8 {entry : Entry} {text : String} :
    entry.constant = .utf8 text ↔ entry.text? = some text := by
  cases entry with
  | utf8 bytes => cases h : Text.ModifiedUtf8.decode? bytes <;> simp [constant, text?, h]
  | _ => simp [constant, text?]

/-- The constant is a reference to a class exactly if the entry is one with this index. -/
theorem Format.Entry.constant_eq_classRef {entry : Entry} {number : Nat} :
    entry.constant = .classRef number ↔
      ∃ nameIndex, entry = .classRef nameIndex ∧ nameIndex.toNat = number := by
  cases entry with
  | utf8 bytes => cases h : Text.ModifiedUtf8.decode? bytes <;> simp [constant, h]
  | _ => simp [constant]

/-- The constant is a number exactly if the entry has this number. -/
theorem Format.Entry.constant_eq_number {entry : Entry} {value : ConstantValue} :
    entry.constant = .number value ↔ entry.number? = some value := by
  cases entry with
  | utf8 bytes => cases h : Text.ModifiedUtf8.decode? bytes <;> simp [constant, number?, h]
  | _ => simp [constant, number?]

/-- An entry whose constant is no number has none. -/
theorem Format.Entry.number?_eq_none {entry : Entry} (h : ∀ value, entry.constant ≠ .number value) :
    entry.number? = none := by
  rw [Option.eq_none_iff_forall_ne_some]
  intro value hvalue
  exact h value (constant_eq_number.mpr hvalue)

/-- A text is found exactly where the format has one. -/
theorem text_poolOf_eq_ok {text : String} :
    (poolOf entries).text index.toNat = .ok text ↔ textAt? entries index = some text := by
  rw [ConstantPool.text, Fallible.bind_eq_ok, textAt?, Option.bind_eq_some_iff]
  constructor
  · rintro ⟨constant, hslot, h⟩
    split at h
    · cases h
      obtain ⟨entry, hentry, hconstant⟩ := (slot_poolOf_eq_ok (by simp)).mp hslot
      exact ⟨entry, hentry, Entry.constant_eq_utf8.mp hconstant⟩
    · cases h
  · rintro ⟨entry, hentry, htext⟩
    exact ⟨.utf8 text, (slot_poolOf_eq_ok (by simp)).mpr
      ⟨entry, hentry, Entry.constant_eq_utf8.mpr htext⟩, rfl⟩

/-- The name of a class is found exactly where the format has one. -/
theorem className_poolOf_eq_ok {name : String} :
    (poolOf entries).className index.toNat = .ok name ↔ classAt? entries index = some name := by
  rw [ConstantPool.className, Fallible.bind_eq_ok]
  constructor
  · rintro ⟨constant, hslot, h⟩
    split at h
    · next number =>
      obtain ⟨entry, hentry, hconstant⟩ := (slot_poolOf_eq_ok (by simp)).mp hslot
      obtain ⟨nameIndex, rfl, rfl⟩ := Entry.constant_eq_classRef.mp hconstant
      rw [classAt?, hentry]
      exact text_poolOf_eq_ok.mp h
    · cases h
  · intro h
    unfold classAt? at h
    split at h
    · next nameIndex hentry =>
      exact ⟨.classRef nameIndex.toNat, (slot_poolOf_eq_ok (by simp)).mpr ⟨_, hentry, rfl⟩,
        text_poolOf_eq_ok.mpr h⟩
    · cases h

/-- A number is found exactly where an entry starts: an entry of another kind gives none. -/
theorem number?_poolOf_eq_ok {value : Option ConstantValue} :
    (poolOf entries).number? index.toNat = .ok value ↔
      ∃ entry, entryAt? entries index = some entry ∧ entry.number? = value := by
  rw [ConstantPool.number?, Fallible.bind_eq_ok]
  constructor
  · rintro ⟨constant, hslot, h⟩
    have husable : constant ≠ .unusable := by
      rintro rfl
      cases h
    obtain ⟨entry, hentry, rfl⟩ := (slot_poolOf_eq_ok husable).mp hslot
    refine ⟨entry, hentry, ?_⟩
    split at h
    · next number hnumber =>
      cases h
      exact Entry.constant_eq_number.mp hnumber
    · cases h
    · next hother _ =>
      cases h
      exact Entry.number?_eq_none hother
  · rintro ⟨entry, hentry, rfl⟩
    have hslot := (slot_poolOf_eq_ok entry.constant_ne_unusable).mpr ⟨entry, hentry, rfl⟩
    refine ⟨entry.constant, hslot, ?_⟩
    split
    · next number hnumber =>
      rw [Entry.constant_eq_number.mp hnumber]
      rfl
    · next hunusable => exact absurd hunusable entry.constant_ne_unusable
    · next hother _ =>
      rw [Entry.number?_eq_none hother]
      rfl

end NativeHeaders.ClassFile
