import NativeHeaders.Proofs.ClassFile.Reading
import NativeHeaders.Proofs.Descriptor.Scanning
import NativeHeaders.Proofs.Text.Scanning

/-! # Class files, by position

`scan` goes over the bytes of a class file by positions. It takes numbers apart byte by byte, counts
the entries of the constant pool next to the slots that it fills, and scans the texts and descriptors
that it comes upon. It does what the reader of `read` does with the bytes behind its position
(`Behind`), step by step. So all scanners compute what the readers find, and never reach outside of
what they are given (`scanners_inRange`). -/

namespace NativeHeaders.ClassFile

open Scanner

/-- A step that goes over the bytes of a class file. -/
abbrev Scan := Scanner ClassFileError

/-- The constant takes two slots. -/
def Constant.isWide : Constant → Bool
  | .number (.long _) | .number (.double _) => true
  | _ => false

section Scans

variable (data : List UInt8)

/-- The next bytes, exactly as many as asked for. -/
def scanBytes (count : Nat) : Scan (List UInt8) := do
  let start ← position
  let stop := start + count
  if stop ≤ data.length then
    let bytes ← slice data start stop
    moveTo stop
    return bytes
  else refuse .unexpectedEnd

/-- The number that the next bytes stand for. -/
def scanNumber (count : Nat) : Scan Nat := do
  let bytes ← scanBytes data count
  return bigEndian (← indexEach bytes 0 count)

/-- The next byte. -/
def scanByte : Scan Nat := scanNumber data 1

/-- The next two bytes. -/
def scanShort : Scan Nat := scanNumber data 2

/-- The next four bytes. -/
def scanWord : Scan Nat := scanNumber data 4

/-- The next eight bytes, as two words. -/
def scanTwoWords : Scan Nat := do
  let high ← scanWord data
  let low ← scanWord data
  return high <<< 32 ||| low

/-- Passes over bytes. -/
def passBytes (count : Nat) : Scan Unit := do let _ ← scanBytes data count

/-- Passes over two bytes that are scanned all the same. -/
def passShort : Scan Unit := do let _ ← scanShort data

/-- What a scanner finds the given number of times. -/
def scanTimes {α : Type} (scanner : Scan α) : Nat → Scan (List α)
  | 0 => return []
  | count + 1 => do
    let first ← scanner
    let rest ← scanTimes scanner count
    return first :: rest

/-- Scans the entry of the pool that starts at the slot `next`. -/
def scanConstant (next : Nat) : Scan Constant := do
  match ← scanByte data with
  | 1 =>
    let length ← scanShort data
    let bytes ← scanBytes data length
    let text? ← Text.ModifiedUtf8.scan bytes
    let index ← narrow next
    match text? with
    | some text => return .utf8 text
    | none => refuse (.invalidText index)
  | 3 => return .number (.int (UInt32.ofNat (← scanWord data)).toInt32)
  | 4 => return .number (.float (UInt32.ofNat (← scanWord data)))
  | 5 => return .number (.long (UInt64.ofNat (← scanTwoWords data)).toInt64)
  | 6 => return .number (.double (UInt64.ofNat (← scanTwoWords data)))
  | 7 => return .classRef (← scanShort data)
  | 8 | 16 | 19 | 20 => passBytes data 2; return .other
  | 15 => passBytes data 3; return .other
  | 9 | 10 | 11 | 12 | 17 | 18 => passBytes data 4; return .other
  | tag => refuse (.unsupportedConstant tag)

/-- Scans entries up to `count`, with the slots of those before the entry `next`. -/
def scanSlots (count : Nat) (pool : ConstantPool) (next : Nat) : Scan ConstantPool := do
  record (.turn pool.size next)
  if next < count then
    let constant ← scanConstant data next
    if constant.isWide then scanSlots count ((pool.push constant).push .unusable) (next + 1 + 1)
    else scanSlots count (pool.push constant) (next + 1)
  else return pool
termination_by count - next

/-- Scans a pool. -/
def scanPool : Scan ConstantPool := do
  let count ← scanShort data
  scanSlots data count #[.unusable] 1

/-- Scans an attribute. -/
def scanAttribute : Scan Attribute := do
  let nameIndex ← scanShort data
  let length ← scanWord data
  let body ← scanBytes data length
  return { nameIndex, body }

/-- Scans a count and as many attributes. -/
def scanAttributes : Scan (List Attribute) := do
  let count ← scanShort data
  scanTimes (scanAttribute data) count

end Scans

/-- The constant that an attribute gives to a field, whose two bytes are taken one by one. -/
def scanFieldConstant (pool : ConstantPool) (flags nameIndex : Nat) (entry : Attribute) :
    Scan (Option ConstantField) := do
  if !isStatic flags || entry.body.length ≠ 2 then return none
  if (← ofExcept (pool.text entry.nameIndex)) ≠ constantValueAttribute then return none
  let valueIndex := bigEndian (← indexEach entry.body 0 2)
  match ← ofExcept (pool.number? valueIndex) with
  | none => return none
  | some value => return some { name := ← ofExcept (pool.text nameIndex), value }

/-- The native method with the given flags, name and descriptor. -/
def scanNativeMethod (pool : ConstantPool) (flags nameIndex descriptorIndex : Nat) :
    Scan NativeMethod := do
  let name ← ofExcept (pool.text nameIndex)
  if !ClassName.isMethod name || name.toList.head? = some '<' then refuse (.invalidMethodName name)
  let descriptor ← ofExcept (pool.text descriptorIndex)
  let types ← nested (mapCause .invalidDescriptor (MethodDescriptor.scan descriptor))
  return { name, types, isStatic := isStatic flags }

section Scans

variable (data : List UInt8)

/-- Scans a field: its constants. -/
def scanField (pool : ConstantPool) : Scan (List ConstantField) := do
  let flags ← scanShort data
  let nameIndex ← scanShort data
  passShort data
  let count ← scanShort data
  let constants ←
    scanTimes (do scanFieldConstant pool flags nameIndex (← scanAttribute data)) count
  return constants.filterMap id

/-- Scans a method: itself if it is native. -/
def scanMethod (pool : ConstantPool) : Scan (Option NativeMethod) := do
  let flags ← scanShort data
  let nameIndex ← scanShort data
  let descriptorIndex ← scanShort data
  let count ← scanShort data
  let method ←
    if isNative flags then some <$> scanNativeMethod pool flags nameIndex descriptorIndex
    else pure none
  let _ ← scanTimes (scanAttribute data) count
  return method

/-- Scans the number and the version in front of a class file. -/
def scanHead : Scan Unit := do
  if (← scanWord data) ≠ magic then refuse .invalidMagic
  let minor ← scanShort data
  let major ← scanShort data
  if major < leastMajor ∨ greatestMajor < major then refuse (.unsupportedVersion major minor)

/-- Scans the flags, the names and the interfaces of a class. -/
def scanNames (pool : ConstantPool) : Scan ClassSummary := do
  passShort data
  let thisIndex ← scanShort data
  let superIndex ← scanShort data
  let interfaces ← scanShort data
  passBytes data (2 * interfaces)
  let name ← ofExcept (pool.className thisIndex)
  let superName ←
    if superIndex = 0 then pure none else some <$> ofExcept (pool.className superIndex)
  return { name, superName }

/-- Scans a class. -/
def scan : Scan ClassSummary := do
  scanHead data
  let pool ← scanPool data
  let summary ← scanNames data pool
  let constants ← scanTimes (scanField data pool) (← scanShort data)
  let methods ← scanTimes (scanMethod data pool) (← scanShort data)
  let _ ← scanAttributes data
  return summary.withMembers constants.flatten (methods.filterMap id)

end Scans

/-! ### Bytes and numbers -/

/-- The bytes are those behind the position. -/
def Behind (data : List UInt8) (position : Nat) (bytes : List UInt8) : Prop :=
  ∃ front, data = front ++ bytes ∧ position = front.length

/-- Wherever it stands, the scanner does what the reader does with the bytes behind its position. -/
abbrev Follows {α : Type} (data : List UInt8) (scanner : Scan α) (reader : Reader α) : Prop :=
  Tracks data.length (Behind data) scanner reader

variable {data : List UInt8} {α : Type}

/-- If there are enough bytes, `takeBytes` takes them off the front. -/
theorem takeBytes_of_le {count : Nat} {bytes : List UInt8} (h : count ≤ bytes.length) :
    takeBytes count bytes = .ok (bytes.take count, bytes.drop count) :=
  if_pos (List.length_take_of_le h)

/-- If there are not enough bytes, `takeBytes` runs into the end. -/
theorem takeBytes_of_lt {count : Nat} {bytes : List UInt8} (h : bytes.length < count) :
    takeBytes count bytes = .error .unexpectedEnd := by
  refine if_neg ?_
  rw [List.length_take]
  omega

/-- Scanning a number of bytes does what `takeBytes` does. -/
theorem follows_scanBytes (count : Nat) : Follows data (scanBytes data count) (takeBytes count) := by
  rintro start left ⟨front, rfl, rfl⟩
  refine gives_position_bind ?_
  have hlength : (front ++ left).length = front.length + left.length := List.length_append
  by_cases hcount : count ≤ left.length
  · have hstop : front.length + count ≤ (front ++ left).length := by omega
    have htaken : ((front ++ left).drop front.length).take (front.length + count - front.length) =
        left.take count := by
      rw [List.drop_left, Nat.add_sub_cancel_left]
    have hbehind : Behind (front ++ left) (front.length + count) (left.drop count) := by
      refine ⟨front ++ left.take count, ?_, ?_⟩
      · rw [List.append_assoc, List.take_append_drop]
      · rw [List.length_append, List.length_take_of_le hcount]
    rw [if_pos hstop, takeBytes_of_le hcount]
    refine (finds_slice (Nat.le_add_right _ _) hstop).bind_gives ?_
    rw [htaken]
    exact gives_moveTo_bind (Nat.le_add_right _ _) hstop (gives_pure hbehind _)
  · rw [if_neg (by omega), takeBytes_of_lt (Nat.not_le.mp hcount)]
    exact gives_refuse _ _

/-- Scanning a number does what `readNumber` does. -/
theorem follows_scanNumber (count : Nat) :
    Follows data (scanNumber data count) (readNumber count) := by
  refine (follows_scanBytes count).bind_of_found ?_
  rintro bytes ⟨before, left, hfound⟩
  obtain ⟨-, hlength⟩ := takeBytes_eq_ok.mp hfound
  have hnumber : Finds (do return bigEndian (← indexEach bytes 0 count) : Scan Nat)
      (bigEndian bytes) := (finds_indexEach_zero hlength).bind (finds_pure _)
  exact hnumber.tracks

/-- Scanning a byte does what `readByte` does. -/
theorem follows_scanByte : Follows data (scanByte data) readByte := follows_scanNumber 1

/-- Scanning two bytes does what `readShort` does. -/
theorem follows_scanShort : Follows data (scanShort data) readShort := follows_scanNumber 2

/-- Scanning four bytes does what `readWord` does. -/
theorem follows_scanWord : Follows data (scanWord data) readWord := follows_scanNumber 4

/-- Passing over a number of bytes does what `skip` does. -/
theorem follows_passBytes (count : Nat) : Follows data (passBytes data count) (skip count) :=
  (follows_scanBytes count).bind fun _ => tracks_pure ()

/-- Passing over two bytes does what `skip` does. -/
theorem follows_passShort : Follows data (passShort data) (skip 2) := by
  -- The reader leaves the two bytes alone, and the scanner makes a number of them.
  have hskip : skip 2 = (do let _ ← readShort) := by
    rw [readShort, readNumber, bind_assoc]
    rfl
  rw [hskip]
  exact follows_scanShort.bind fun _ => tracks_pure ()

/-- The bytes in front count for 256 to the number of bytes behind them. -/
theorem bigEndian_append (high low : List UInt8) :
    bigEndian (high ++ low) = bigEndian high * 256 ^ low.length + bigEndian low := by
  induction low using List.reverseRecOn with
  | nil => simp [bigEndian]
  | append_singleton low byte ih =>
    rw [← List.append_assoc, bigEndian_concat, bigEndian_concat, ih, List.length_append,
      List.length_singleton, Nat.pow_succ, Nat.add_mul, Nat.mul_assoc, Nat.add_assoc]

/-- If there are enough bytes, `readNumber` reads the number that they encode. -/
theorem readNumber_of_le {count : Nat} {bytes : List UInt8} (h : count ≤ bytes.length) :
    readNumber count bytes = .ok (bigEndian (bytes.take count), bytes.drop count) := by
  rw [readNumber, bind_of_ok (takeBytes_of_le h)]
  rfl

/-- If there are not enough bytes, `readNumber` runs into the end. -/
theorem readNumber_of_lt {count : Nat} {bytes : List UInt8} (h : bytes.length < count) :
    readNumber count bytes = .error .unexpectedEnd := by
  rw [readNumber, bind_of_error (takeBytes_of_lt h)]

/-- A number is made of the numbers in its first and in its last bytes. -/
theorem readNumber_add (first last : Nat) :
    readNumber (first + last) = (do
      let high ← readNumber first
      let low ← readNumber last
      return high * 256 ^ last + low) := by
  funext bytes
  -- Where the bytes do not suffice for both, they do not suffice for the first or for the last ones.
  have hlength : (bytes.drop first).length = bytes.length - first := List.length_drop
  by_cases hfirst : first ≤ bytes.length
  · rw [bind_of_ok (readNumber_of_le hfirst)]
    by_cases hlast : last ≤ (bytes.drop first).length
    · rw [bind_of_ok (readNumber_of_le hlast), readNumber_of_le (by omega), List.take_add,
        bigEndian_append, List.length_take_of_le hlast, ← List.drop_drop]
      rfl
    · rw [bind_of_error (readNumber_of_lt (Nat.not_le.mp hlast)), readNumber_of_lt (by omega)]
  · rw [bind_of_error (readNumber_of_lt (Nat.not_le.mp hfirst)), readNumber_of_lt (by omega)]

/-- Scanning two words and putting them together does what reading eight bytes does. -/
theorem follows_scanTwoWords : Follows data (scanTwoWords data) (readNumber 8) := by
  rw [show 8 = 4 + 4 from rfl, readNumber_add]
  refine follows_scanWord.bind fun high => follows_scanWord.bind_of_found fun low hlow => ?_
  -- The low word has no bits where the high one is moved to, so the two are added.
  obtain ⟨before, left, hfound⟩ := hlow
  obtain ⟨hlt, -⟩ := readWord_eq_ok.mp hfound
  rw [← Nat.shiftLeft_add_eq_or_of_lt hlt, Nat.shiftLeft_eq]
  exact tracks_pure _

/-- Scanning the same thing a number of times does what `readTimes` does, if each scan does what the
reader does. -/
theorem follows_scanTimes {scanner : Scan α} {reader : Reader α} (h : Follows data scanner reader)
    (count : Nat) : Follows data (scanTimes scanner count) (readTimes reader count) := by
  induction count with
  | zero => exact tracks_pure []
  | succ count ih =>
    rw [scanTimes, readTimes]
    exact h.bind fun first => ih.bind fun others => tracks_pure (first :: others)

/-! ### The constant pool -/

/-- Scanning a constant of the pool does what `readConstant` does, as long as the index of the next
one fits in two bytes. -/
theorem follows_scanConstant {next : Nat} (hnext : next < UInt16.size) :
    Follows data (scanConstant data next) (readConstant next) := by
  unfold scanConstant readConstant
  refine follows_scanByte.bind fun tag => ?_
  have hother (length : Nat) :
      Follows data (do passBytes data length; return Constant.other)
        (do skip length; return Constant.other) :=
    (follows_passBytes length).bind fun _ => tracks_pure _
  have hunsupported : Follows data (refuse (.unsupportedConstant tag) : Scan Constant)
      (throw (.unsupportedConstant tag)) := tracks_refuse _
  -- A case for each tag that is told apart, then those of the other kinds.
  split
  case h_1 =>
    refine follows_scanShort.bind fun length => (follows_scanBytes length).bind fun bytes => ?_
    refine (Text.ModifiedUtf8.finds_scan bytes).bind_tracks ((finds_narrow hnext).bind_tracks ?_)
    cases Text.ModifiedUtf8.decode? bytes with
    | none => exact tracks_refuse _
    | some text => exact tracks_pure _
  case h_2 | h_3 => exact follows_scanWord.bind fun bits => tracks_pure _
  case h_4 | h_5 => exact follows_scanTwoWords.bind fun bits => tracks_pure _
  case h_6 => exact follows_scanShort.bind fun nameIndex => tracks_pure _
  case h_18 => simp [*]
  all_goals exact hother _

/-- A constant takes the slots that the loop fills for it. -/
theorem append_slots (pool : ConstantPool) (constant : Constant) :
    pool ++ constant.slots = if constant.isWide then (pool.push constant).push .unusable
      else pool.push constant := by
  unfold Constant.slots
  split
  · simp [Constant.isWide]
  · simp [Constant.isWide]
  · next hlong hdouble =>
    have hwide : constant.isWide = false := by
      unfold Constant.isWide
      split
      · next value => exact absurd rfl (hlong value)
      · next bits => exact absurd rfl (hdouble bits)
      · rfl
    simp [hwide]

/-- The pool has a slot for each entry so far whenever the loop makes a turn. -/
theorem follows_scanSlots {count : Nat} (hcount : count < UInt16.size) (pool : ConstantPool)
    {next : Nat} (hnext : pool.size = next) :
    Follows data (scanSlots data count pool next) (readSlots count pool) := by
  -- By induction along the loop: what it fills for a constant keeps slots and entries in step.
  induction pool, next using scanSlots.induct count with
  | case1 pool next ihwide ihother =>
    have hturn : Finds (record (.turn pool.size next) : Scan Unit) () := finds_record hnext
    rw [scanSlots, readSlots]
    refine hturn.bind_tracks ?_
    subst hnext
    by_cases hlt : pool.size < count
    · rw [if_pos hlt, if_pos hlt]
      refine (follows_scanConstant (by omega)).bind fun constant => ?_
      rw [append_slots]
      by_cases hwide : constant.isWide
      · rw [if_pos hwide, if_pos hwide]
        exact ihwide hlt constant (by simp)
      · rw [if_neg hwide, if_neg hwide]
        exact ihother hlt constant (by simp)
    · rw [if_neg hlt, if_neg hlt]
      exact tracks_pure pool

/-- Scanning the constant pool does what `readPool` does. -/
theorem follows_scanPool : Follows data (scanPool data) readPool := by
  refine follows_scanShort.bind_of_found ?_
  rintro count ⟨before, left, hfound⟩
  obtain ⟨index, rfl, -⟩ := readShort_eq_ok.mp hfound
  exact follows_scanSlots index.toNat_lt_size _ rfl

/-! ### Members -/

/-- Scanning an attribute does what `readAttribute` does. -/
theorem follows_scanAttribute : Follows data (scanAttribute data) readAttribute :=
  follows_scanShort.bind fun _ => follows_scanWord.bind fun length =>
    (follows_scanBytes length).bind fun _ => tracks_pure _

/-- Scanning a list of attributes does what `readAttributes` does. -/
theorem follows_scanAttributes : Follows data (scanAttributes data) readAttributes :=
  follows_scanShort.bind fun count => follows_scanTimes follows_scanAttribute count

/-- The bytes of an attribute are only taken out of it if there are two of them. -/
theorem settles_scanFieldConstant (pool : ConstantPool) (flags nameIndex : Nat) (entry : Attribute) :
    Settles (scanFieldConstant pool flags nameIndex entry)
      (fieldConstant? pool flags nameIndex entry) := by
  unfold scanFieldConstant fieldConstant?
  split
  · exact finds_pure none
  · next hkept =>
    have hlength : entry.body.length = 2 := by
      by_contra hne
      exact hkept (by simp [hne])
    refine (settles_ofExcept _).bind fun name => ?_
    split
    · exact finds_pure none
    · refine (finds_indexEach_zero hlength).bind ?_
      refine (settles_ofExcept _).bind fun value? => ?_
      cases value? with
      | none => exact finds_pure none
      | some value => exact (settles_ofExcept _).bind fun name => finds_pure _

/-- Looking up a native method in the pool stays where it is, and finds what `nativeMethod` does. -/
theorem settles_scanNativeMethod (pool : ConstantPool) (flags nameIndex descriptorIndex : Nat) :
    Settles (scanNativeMethod pool flags nameIndex descriptorIndex)
      (nativeMethod pool flags nameIndex descriptorIndex) := by
  unfold scanNativeMethod nativeMethod
  refine (settles_ofExcept _).bind fun name => ?_
  refine (settles_refuse _).error_bind.ite ?_
  refine (settles_ofExcept _).bind fun descriptor => ?_
  have htypes := ((MethodDescriptor.computes_scan descriptor).mapCause
    ClassFileError.invalidDescriptor).settles_nested
  cases hparse : MethodDescriptor.parse descriptor with
  | error error =>
    rw [hparse] at htypes
    exact htypes.error_bind
  | ok types =>
    rw [hparse] at htypes
    exact Finds.bind htypes (finds_pure _)

/-- Scanning a field does what `readField` does. -/
theorem follows_scanField (pool : ConstantPool) :
    Follows data (scanField data pool) (readField pool) := by
  refine follows_scanShort.bind fun flags => follows_scanShort.bind fun nameIndex =>
    follows_passShort.bind fun _ => follows_scanShort.bind fun count => ?_
  have hconstant : Follows data
      (do scanFieldConstant pool flags nameIndex (← scanAttribute data))
      (do fieldConstant? pool flags nameIndex (← readAttribute)) :=
    follows_scanAttribute.bind fun entry =>
      (settles_scanFieldConstant pool flags nameIndex entry).tracks
  exact (follows_scanTimes hconstant count).bind fun constants => tracks_pure _

/-- Scanning a method does what `readMethod` does. -/
theorem follows_scanMethod (pool : ConstantPool) :
    Follows data (scanMethod data pool) (readMethod pool) := by
  refine follows_scanShort.bind fun flags => follows_scanShort.bind fun nameIndex =>
    follows_scanShort.bind fun descriptorIndex => follows_scanShort.bind fun count => ?_
  have hattributes (method : Option NativeMethod) : Follows data
      (do let _ ← scanTimes (scanAttribute data) count; return method)
      (do let _ ← readTimes readAttribute count; return method) :=
    (follows_scanTimes follows_scanAttribute count).bind fun _ => tracks_pure method
  have hnative : Follows data (some <$> scanNativeMethod pool flags nameIndex descriptorIndex)
      (some <$> nativeMethod pool flags nameIndex descriptorIndex) :=
    (settles_scanNativeMethod pool flags nameIndex descriptorIndex).tracks.bind fun _ => tracks_pure _
  exact (hnative.bind hattributes).ite ((tracks_pure none).bind hattributes)

/-! ### Classes -/

/-- Scanning the head of a class file does what `readHead` does. -/
theorem follows_scanHead : Follows data (scanHead data) readHead := by
  refine follows_scanWord.bind fun number => ?_
  have hversion : Follows data
      (do
        let minor ← scanShort data
        let major ← scanShort data
        if major < leastMajor ∨ greatestMajor < major then
          refuse (.unsupportedVersion major minor))
      (do
        let minor ← readShort
        let major ← readShort
        if major < leastMajor ∨ greatestMajor < major then
          throw (.unsupportedVersion major minor)) :=
    follows_scanShort.bind fun _ => follows_scanShort.bind fun _ =>
      (tracks_refuse _).ite (tracks_pure ())
  exact ((tracks_refuse _).bind fun _ => hversion).ite ((tracks_pure ()).bind fun _ => hversion)

/-- Scanning the names in a class file does what `readNames` does. -/
theorem follows_scanNames (pool : ConstantPool) :
    Follows data (scanNames data pool) (readNames pool) := by
  refine follows_passShort.bind fun _ => follows_scanShort.bind fun thisIndex =>
    follows_scanShort.bind fun superIndex => follows_scanShort.bind fun interfaces =>
    (follows_passBytes (2 * interfaces)).bind fun _ =>
    (settles_ofExcept (pool.className thisIndex)).tracks.bind fun name => ?_
  have hsuper : Follows data (some <$> ofExcept (pool.className superIndex))
      (some <$> pool.className superIndex) :=
    (settles_ofExcept _).tracks.bind fun _ => tracks_pure _
  exact ((tracks_pure none).bind fun _ => tracks_pure _).ite (hsuper.bind fun _ => tracks_pure _)

/-- Scanning a class file does what `readClass` does. -/
theorem follows_scan : Follows data (scan data) readClass := by
  refine follows_scanHead.bind fun _ => follows_scanPool.bind fun pool =>
    (follows_scanNames pool).bind fun summary => follows_scanShort.bind fun fields =>
    (follows_scanTimes (follows_scanField pool) fields).bind fun constants =>
    follows_scanShort.bind fun methods =>
    (follows_scanTimes (follows_scanMethod pool) methods).bind fun natives => ?_
  exact follows_scanAttributes.bind fun _ => tracks_pure _

/-- **The scanner finds in a class file what `read` does**, and all its accesses are in range. -/
theorem computes_scan (bytes : List UInt8) : Computes bytes.length (scan bytes) (read bytes) := by
  have hstart : Behind bytes 0 bytes := ⟨[], rfl, rfl⟩
  have hcomputes := (follows_scan 0 bytes hstart).computes
  have hread : read bytes = (readClass bytes).map Prod.fst := by
    unfold read StateT.run
    cases readClass bytes <;> rfl
  rwa [hread]

/-- Whatever bytes a class file has and whatever text a descriptor is, its scanner comes to what the
reader finds. On the way the position only grows and never passes the end, every item that is taken
out of bytes is one of theirs, two bytes hold the index of every entry of the pool, the pool has a
slot for each entry so far at every turn, and the name of a class is cut out between characters. -/
theorem scanners_inRange :
    (∀ bytes : List UInt8, Computes bytes.length (scan bytes) (read bytes)) ∧
    (∀ text : String, Computes text.utf8ByteSize (FieldType.scan text) (FieldType.parse text)) ∧
    (∀ text : String,
      Computes text.utf8ByteSize (MethodDescriptor.scan text) (MethodDescriptor.parse text)) :=
  ⟨computes_scan, FieldType.computes_scan, MethodDescriptor.computes_scan⟩

end NativeHeaders.ClassFile
