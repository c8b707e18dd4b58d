import NativeHeaders.Proofs.ClassFile.Reading

/-! # Truncated class files

A reader that is `Sequential` looks at bytes from the front only, and at no byte before it is sure
that it needs it: what it finds, or why it refuses, depends on the bytes that it took off, and with
fewer of these it runs into the end. All readers of class files are built from `takeBytes` by steps
that keep this (`Sequential.bind`, `Sequential.times`). So a class file that was cut off is never
taken for another one, and what stands behind a class file does not matter (`read_prefix`). -/

namespace NativeHeaders.ClassFile

variable {α β : Type} {bytes : List UInt8}

/-- The bytes are just those that the reader needs to find something: it leaves whatever stands
behind them, and it runs into the end if some of them are missing. -/
structure Needs (reader : Reader α) (taken : List UInt8) (found : α) : Prop where
  /-- What stands behind the bytes is left. -/
  leaves : ∀ behind, reader (taken ++ behind) = .ok (found, behind)
  /-- No byte can be missing. -/
  truncated : ∀ short, short <+: taken → short.length < taken.length →
    reader short = .error .unexpectedEnd

/-- The reader decides by the bytes that it takes off, one after the other. -/
structure Sequential (reader : Reader α) : Prop where
  /-- What it finds stands in the bytes that it takes off. -/
  needs : ∀ {bytes rest : List UInt8} {found : α}, reader bytes = .ok (found, rest) →
    ∃ taken, bytes = taken ++ rest ∧ Needs reader taken found
  /-- If it refuses bytes, then whatever stands behind them. -/
  refuses : ∀ {bytes : List UInt8} {error : ClassFileError}, reader bytes = .error error →
    error ≠ .unexpectedEnd → ∀ behind, reader (bytes ++ behind) = .error error

/-! ### Steps -/

/-- A step that reads nothing needs no bytes. -/
theorem sequential_lift (step : Except ClassFileError α) : Sequential (liftM step : Reader α) where
  needs := by
    intro bytes rest found h
    obtain ⟨rfl, rfl⟩ := lift_eq_ok.mp h
    refine ⟨[], rfl, fun behind => lift_eq_ok.mpr ⟨rfl, rfl⟩, fun short _ hlength => ?_⟩
    exact absurd hlength (Nat.not_lt_zero _)
  refuses := by
    intro bytes error h _ behind
    cases step with
    | ok value => cases h
    | error cause => exact h

/-- A reader that only gives a value takes off nothing. -/
theorem sequential_pure (value : α) : Sequential (pure value : Reader α) :=
  sequential_lift (.ok value)

/-- So does a reader that fails. -/
theorem sequential_throw (error : ClassFileError) : Sequential (throw error : Reader α) :=
  sequential_lift (.error error)

/-- Taking a number of bytes decides by these bytes. -/
theorem sequential_takeBytes (count : Nat) : Sequential (takeBytes count) where
  needs := by
    intro bytes rest taken h
    obtain ⟨rfl, rfl⟩ := takeBytes_eq_ok.mp h
    refine ⟨taken, rfl, fun behind => takeBytes_eq_ok.mpr ⟨rfl, rfl⟩, fun short _ hlength => ?_⟩
    unfold takeBytes
    rw [List.take_of_length_le (Nat.le_of_lt hlength)]
    exact if_neg (Nat.ne_of_lt hlength)
  refuses := by
    intro bytes error h hother behind
    unfold takeBytes at h
    dsimp only at h
    split at h
    · cases h
    · cases h
      exact absurd rfl hother

section Composition

variable {reader : Reader α} {next : α → Reader β}

/-- Of two steps, the second one takes bytes off what the first one left. -/
theorem Needs.bind {taken more : List UInt8} {found : α} {result : β}
    (hreader : Needs reader taken found) (hnext : Needs (next found) more result) :
    Needs (reader >>= next) (taken ++ more) result where
  leaves := by
    intro behind
    rw [List.append_assoc, bind_of_ok (hreader.leaves _)]
    exact hnext.leaves behind
  truncated := by
    intro short hshort hlength
    -- The bytes end within what the first step needs, or within what the second one does.
    by_cases hfirst : short.length < taken.length
    · have hprefix : short <+: taken :=
        List.prefix_of_prefix_length_le hshort (List.prefix_append taken more)
          (Nat.le_of_lt hfirst)
      exact bind_of_error (hreader.truncated short hprefix hfirst)
    · obtain ⟨behind, rfl⟩ : taken <+: short :=
        List.prefix_of_prefix_length_le (List.prefix_append taken more) hshort
          (Nat.not_lt.mp hfirst)
      rw [bind_of_ok (hreader.leaves behind)]
      refine hnext.truncated behind ((List.prefix_append_right_inj taken).mp hshort) ?_
      rw [List.length_append, List.length_append] at hlength
      omega

/-- Two sequential readers, one after the other, are one. -/
theorem Sequential.bind (hreader : Sequential reader) (hnext : ∀ found, Sequential (next found)) :
    Sequential (reader >>= next) where
  needs := by
    intro bytes rest result h
    obtain ⟨found, left, hfound, hresult⟩ := bind_eq_ok.mp h
    obtain ⟨taken, rfl, htaken⟩ := hreader.needs hfound
    obtain ⟨more, rfl, hmore⟩ := (hnext found).needs hresult
    exact ⟨taken ++ more, (List.append_assoc ..).symm, htaken.bind hmore⟩
  refuses := by
    intro bytes error h hother behind
    cases hfound : reader bytes with
    | error cause =>
      rw [bind_of_error hfound] at h
      cases h
      exact bind_of_error (hreader.refuses hfound hother behind)
    | ok outcome =>
      -- The first step finds the same in front of more bytes, and the second one refuses them.
      obtain ⟨found, left⟩ := outcome
      obtain ⟨taken, rfl, htaken⟩ := hreader.needs hfound
      rw [bind_of_ok hfound] at h
      rw [List.append_assoc, bind_of_ok (htaken.leaves (left ++ behind))]
      exact (hnext found).refuses h hother behind

/-- A changed result needs the same bytes. -/
theorem Sequential.map (hreader : Sequential reader) (change : α → β) :
    Sequential (change <$> reader) := by
  rw [map_eq_pure_bind]
  exact hreader.bind fun found => sequential_pure (change found)

/-- A choice between sequential readers is one. -/
theorem Sequential.ite {p : Prop} [Decidable p] {other : Reader α} (hreader : Sequential reader)
    (hother : Sequential other) : Sequential (if p then reader else other) := by
  by_cases h : p
  · rwa [if_pos h]
  · rwa [if_neg h]

/-- A sequential reader can be repeated. -/
theorem Sequential.times (hreader : Sequential reader) (count : Nat) :
    Sequential (readTimes reader count) := by
  induction count with
  | zero => exact sequential_pure []
  | succ count ih =>
    rw [readTimes]
    exact hreader.bind fun first => ih.bind fun others => sequential_pure (first :: others)

end Composition

/-- Reading a number is sequential. -/
theorem sequential_readNumber (count : Nat) : Sequential (readNumber count) :=
  (sequential_takeBytes count).bind fun taken => sequential_pure (bigEndian taken)

/-- Reading a byte is sequential. -/
theorem sequential_readByte : Sequential readByte := sequential_readNumber 1

/-- Reading two bytes is sequential. -/
theorem sequential_readShort : Sequential readShort := sequential_readNumber 2

/-- Reading four bytes is sequential. -/
theorem sequential_readWord : Sequential readWord := sequential_readNumber 4

/-- Passing over bytes is sequential. -/
theorem sequential_skip (count : Nat) : Sequential (skip count) :=
  (sequential_takeBytes count).bind fun _ => sequential_pure ()

/-! ### The constant pool -/

/-- Reading a constant of the pool is sequential, whatever its tag is. -/
theorem sequential_readConstant (index : Nat) : Sequential (readConstant index) := by
  unfold readConstant
  refine sequential_readByte.bind fun tag => ?_
  have hother (length : Nat) :
      Sequential (do skip length; return Constant.other : Reader Constant) :=
    (sequential_skip length).bind fun _ => sequential_pure _
  -- A case for each tag that is told apart, then those of the other kinds.
  split
  case h_1 =>
    -- The bytes of a text are all taken off before one of them can be refused.
    refine sequential_readShort.bind fun length => (sequential_takeBytes length).bind fun text => ?_
    cases Text.ModifiedUtf8.decode? text with
    | none => exact sequential_throw _
    | some decoded => exact sequential_pure _
  case h_2 | h_3 => exact sequential_readWord.bind fun bits => sequential_pure _
  case h_4 | h_5 => exact (sequential_readNumber 8).bind fun bits => sequential_pure _
  case h_6 => exact sequential_readShort.bind fun nameIndex => sequential_pure _
  case h_18 => exact sequential_throw _
  all_goals exact hother _

/-- Reading the slots of the pool is sequential, by induction on the slots that are left. -/
theorem sequential_readSlots (count : Nat) (pool : ConstantPool) :
    Sequential (readSlots count pool) := by
  -- By induction along the loop, which goes on behind the bytes of each entry.
  induction pool using readSlots.induct count with
  | case1 pool hlt ih =>
    rw [readSlots, if_pos hlt]
    exact (sequential_readConstant pool.size).bind ih
  | case2 pool hge =>
    rw [readSlots, if_neg hge]
    exact sequential_pure pool

/-- Reading the constant pool is sequential. -/
theorem sequential_readPool : Sequential readPool :=
  sequential_readShort.bind fun count => sequential_readSlots count _

/-! ### Members -/

/-- Reading an attribute is sequential. -/
theorem sequential_readAttribute : Sequential readAttribute :=
  sequential_readShort.bind fun _ => sequential_readWord.bind fun length =>
    (sequential_takeBytes length).bind fun _ => sequential_pure _

/-- Reading a field is sequential, whatever the pool is. -/
theorem sequential_readField (pool : ConstantPool) : Sequential (readField pool) := by
  unfold readField
  refine sequential_readShort.bind fun flags => sequential_readShort.bind fun nameIndex =>
    (sequential_skip 2).bind fun _ => sequential_readShort.bind fun count => ?_
  -- An attribute is looked at when it was taken off as a whole.
  have hconstant : Sequential (do fieldConstant? pool flags nameIndex (← readAttribute)) :=
    sequential_readAttribute.bind fun item =>
      sequential_lift (fieldConstant? pool flags nameIndex item)
  exact (hconstant.times count).bind fun _ => sequential_pure _

/-- Reading a method is sequential, whatever the pool is. -/
theorem sequential_readMethod (pool : ConstantPool) : Sequential (readMethod pool) := by
  unfold readMethod
  refine sequential_readShort.bind fun flags => sequential_readShort.bind fun nameIndex =>
    sequential_readShort.bind fun descriptorIndex => sequential_readShort.bind fun count => ?_
  have hattributes (method : Option NativeMethod) : Sequential (do
      let _ ← readTimes readAttribute count
      return method : Reader (Option NativeMethod)) :=
    (sequential_readAttribute.times count).bind fun _ => sequential_pure method
  have hnative : Sequential
      (some <$> nativeMethod pool flags nameIndex descriptorIndex : Reader (Option NativeMethod)) :=
    (sequential_lift _).map some
  exact (hnative.bind hattributes).ite ((sequential_pure none).bind hattributes)

/-! ### Classes -/

/-- Reading the head of a class file is sequential. -/
theorem sequential_readHead : Sequential readHead := by
  unfold readHead
  refine sequential_readWord.bind fun number => ?_
  have hversion : Sequential (do
      let minor ← readShort
      let major ← readShort
      if major < leastMajor ∨ greatestMajor < major then
        throw (.unsupportedVersion major minor) : Reader Unit) :=
    sequential_readShort.bind fun _ => sequential_readShort.bind fun _ =>
      (sequential_throw _).ite (sequential_pure ())
  exact ((sequential_throw .invalidMagic).bind fun _ => hversion).ite
    ((sequential_pure ()).bind fun _ => hversion)

/-- Reading the names in a class file is sequential, whatever the pool is. -/
theorem sequential_readNames (pool : ConstantPool) : Sequential (readNames pool) := by
  unfold readNames
  refine (sequential_skip 2).bind fun _ => sequential_readShort.bind fun thisIndex =>
    sequential_readShort.bind fun superIndex => sequential_readShort.bind fun interfaces =>
    (sequential_skip (2 * interfaces)).bind fun _ =>
    (sequential_lift (pool.className thisIndex)).bind fun name => ?_
  have hsummary (superName : Option String) :
      Sequential (return { name, superName } : Reader ClassSummary) := sequential_pure _
  have hsuper : Sequential (some <$> pool.className superIndex : Reader (Option String)) :=
    (sequential_lift _).map some
  exact ((sequential_pure none).bind hsummary).ite (hsuper.bind hsummary)

/-- **Reading a class file is sequential.** -/
theorem sequential_readClass : Sequential readClass := by
  unfold readClass
  refine sequential_readHead.bind fun _ => sequential_readPool.bind fun pool =>
    (sequential_readNames pool).bind fun _ => sequential_readShort.bind fun fields =>
    ((sequential_readField pool).times fields).bind fun _ => sequential_readShort.bind
      fun methods => ((sequential_readMethod pool).times methods).bind fun _ => ?_
  have hattributes : Sequential readAttributes :=
    sequential_readShort.bind fun count => sequential_readAttribute.times count
  exact hattributes.bind fun _ => sequential_pure _

/-! ### Cut files -/

/-- A class that was read stands in the bytes up to some length, and none of these can be missing.
-/
theorem needs_of_read {summary : ClassSummary} (h : read bytes = .ok summary) :
    ∃ taken, taken <+: bytes ∧ Needs readClass taken summary := by
  obtain ⟨⟨found, rest⟩, hclass, hfound⟩ := Fallible.bind_eq_ok.mp h
  cases hfound
  obtain ⟨taken, rfl, htaken⟩ := sequential_readClass.needs hclass
  exact ⟨taken, List.prefix_append taken rest, htaken⟩

/-- What was decided about bytes stays when more bytes follow. -/
theorem read_append (h : read bytes ≠ .error .unexpectedEnd) (behind : List UInt8) :
    read (bytes ++ behind) = read bytes := by
  cases hread : read bytes with
  | ok summary =>
    obtain ⟨taken, ⟨rest, rfl⟩, htaken⟩ := needs_of_read hread
    rw [List.append_assoc, read, StateT.run, htaken.leaves (rest ++ behind)]
    rfl
  | error cause =>
    have hother : cause ≠ .unexpectedEnd := fun heq => h (heq ▸ hread)
    obtain hclass | ⟨_, _, hfound⟩ := Fallible.bind_eq_error.mp hread
    · rw [read, StateT.run, sequential_readClass.refuses hclass hother behind]
      rfl
    · cases hfound

/-- **A cut class file is noticed, and what follows a class file does not matter.** Unless bytes end
too early, the bytes with anything behind them are read with the same result. So what a part of some
bytes from their front on is read as is the result for all of them, or that the part ends too early.
And if bytes are read as a class, then it stands in them up to some length: every part that is
shorter ends too early, and every other part is read as this class. -/
theorem read_prefix :
    (∀ bytes behind, read bytes ≠ .error .unexpectedEnd → read (bytes ++ behind) = read bytes) ∧
      (∀ bytes part, part <+: bytes →
        read part = .error .unexpectedEnd ∨ read part = read bytes) ∧
      ∀ bytes summary, read bytes = .ok summary →
        ∃ length ≤ bytes.length, ∀ part, part <+: bytes →
          (part.length < length → read part = .error .unexpectedEnd) ∧
          (length ≤ part.length → read part = .ok summary) := by
  refine ⟨fun bytes behind h => read_append h behind, ?_, ?_⟩
  · rintro _ part ⟨behind, rfl⟩
    by_cases h : read part = .error .unexpectedEnd
    · exact .inl h
    · exact .inr (read_append h behind).symm
  · intro bytes summary h
    obtain ⟨taken, htaken, hneeds⟩ := needs_of_read h
    refine ⟨taken.length, htaken.length_le, fun part hpart => ⟨fun hlength => ?_, fun hlength => ?_⟩⟩
    · have hshort : part <+: taken :=
        List.prefix_of_prefix_length_le hpart htaken (Nat.le_of_lt hlength)
      rw [read, StateT.run, hneeds.truncated part hshort hlength]
      rfl
    · obtain ⟨behind, rfl⟩ : taken <+: part :=
        List.prefix_of_prefix_length_le htaken hpart hlength
      rw [read, StateT.run, hneeds.leaves behind]
      rfl

end NativeHeaders.ClassFile
