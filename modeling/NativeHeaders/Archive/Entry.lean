import NativeHeaders.Archive.Checksum
import NativeHeaders.Archive.Inflate
import NativeHeaders.Archive.Layout
import NativeHeaders.Text.CodePage437
import NativeHeaders.Text.Utf8

/-! # Entries of archives

An entry is what the directory of an archive says about one file: its name, where its content stands, and how it
is packed. `Entry.readAt?` reads the record of an entry together with the further fields behind its name, which
may give sizes that do not fit into the record itself, and a better spelling of the name. -/

namespace NativeHeaders.Archive

/-- A file in an archive. -/
structure Entry where
  /-- The name, with slashes between directories. -/
  name : String
  /-- Whether a password is needed to read the content. -/
  isEncrypted : Bool
  /-- Whether the entry is a symbolic link. -/
  isLink : Bool
  /-- The number of the method with which the content is packed. -/
  method : Nat
  /-- The checksum of the content. -/
  checksum : UInt32
  /-- The number of bytes of the packed content. -/
  packedSize : Nat
  /-- The number of bytes of the content. -/
  size : Nat
  /-- Where the record in front of the packed content starts. -/
  localStart : Nat
  /-- Where the packed content starts. -/
  contentStart : Nat
deriving DecidableEq, Repr

namespace Entry

/-! ### Further fields -/

/-- What further fields of an entry may replace or check. -/
structure Draft where
  /-- The entry as read so far. -/
  entry : Entry
  /-- The bytes of the name. -/
  nameBytes : ByteArray
  /-- The comment on the entry. -/
  comment : String
  /-- Whether a field says how the content is encrypted. -/
  hasCipher : Bool := false

/-- The value of a number in a record that says that a further field has the number. -/
def deferred : Nat := 0xFFFFFFFF

/-- The number of the method that stands for an encrypted content. -/
def cipherMethod : Nat := 99

/-- A number of eight bytes at the front of a field, in the place of a deferred number or of any number if the
field is long enough to hold all, with the number of bytes read. -/
def longNumber? (field : ByteArray) (position current : Nat) : Option (Nat × Nat) :=
  if field.size ≥ 24 ∨ current = deferred then
    (numberAt? field position 8).map fun number => (number, position + 8)
  else some (current, position)

/-- Applies a field with sizes and positions of eight bytes. -/
def applyLongNumbers? (draft : Draft) (field : ByteArray) : Option Draft := do
  let (size, position) ← longNumber? field 0 draft.entry.size
  let (packedSize, position) ← longNumber? field position draft.entry.packedSize
  let (localStart, _) ← longNumber? field position draft.entry.localStart
  return { draft with entry := { draft.entry with size, packedSize, localStart } }

/-- Applies a field that says how the content is encrypted. -/
def applyCipher? (draft : Draft) (field : ByteArray) : Option Draft :=
  match field.size, numbersAt? field 0 [2, 2, 1, 2] with
  | 7, some [version, 0x4541, strength, method] =>
    if (version = 1 || version = 2) && (1 ≤ strength && strength ≤ 3) then
      some { draft with entry := { draft.entry with method }, hasCipher := true }
    else none
  | _, _ => none

/-- Whether a field with times of four bytes holds as many as its first byte marks; a single time is allowed in
any case. -/
def hasMarkedTimes (field : ByteArray) : Bool :=
  match field[0]? with
  | none => false
  | some marks =>
    let count := [0, 1, 2].countP (marks.toNat.testBit ·)
    marks < 8 && (field.size = 5 || field.size = 1 + 4 * count)

/-- Whether a field holds three times of eight bytes. -/
def hasLongTimes (field : ByteArray) : Bool :=
  field.size = 32 && numbersAt? field 4 [2, 2] = some [1, 24]

/-- The bytes that a field gives for a text, if it was made for the text as it is in the record. -/
def restated? (field plain : ByteArray) : Option ByteArray := do
  let [version, sum] ← numbersAt? field 0 [1, 4] | none
  if version = 1 ∧ sum = (Archive.checksum plain).toNat then return field.extract 5 field.size else none

/-- Applies a further field of the given kind. Kinds that do not matter are passed over. -/
def applyField? (draft : Draft) (kind : Nat) (field : ByteArray) : Option Draft :=
  match kind with
  | 0x0001 => applyLongNumbers? draft field
  | 0x000A => if hasLongTimes field then some draft else none
  | 0x5455 => if hasMarkedTimes field then some draft else none
  | 0x6375 => do
    let _ ← String.fromUTF8? (← restated? field draft.comment.toUTF8)
    return draft
  | 0x7075 => do
    let nameBytes ← restated? field draft.nameBytes
    let name ← String.fromUTF8? nameBytes
    return { draft with entry := { draft.entry with name }, nameBytes }
  | 0x9901 => applyCipher? draft field
  | _ => some draft

/-- Applies the further fields from `position` on; each takes four bytes at least. -/
def applyFields? (fields : ByteArray) : Nat → Nat → Draft → Option Draft
  | 0, _, draft => some draft
  | steps + 1, position, draft =>
    if position < fields.size then do
      let [kind, size] ← numbersAt? fields position [2, 2] | none
      let field ← bytesAt? fields (position + 4) size
      applyFields? fields steps (position + 4 + size) (← applyField? draft kind field)
    else some draft

/-! ### Records -/

/-- The signature of the record of an entry in the directory. -/
def signature : Nat := 0x02014B50

/-- The signature of the record in front of the content of an entry. -/
def localSignature : Nat := 0x04034B50

/-- The text of a name or a comment. -/
def textOf (isUtf8 : Bool) (bytes : ByteArray) : String :=
  if isUtf8 then Text.lossyText bytes else Text.textOfCodePage437 bytes.data.toList

/-- Whether attributes mark a symbolic link, which they can on one kind of system only. -/
def marksLink (system attributes : Nat) : Bool :=
  system = 3 && (attributes >>> 16) &&& 0o120000 = 0o120000

/-- Where the content starts behind the local record. -/
def contentStart? (bytes : ByteArray) (localStart : Nat) : Option Nat := do
  let [signature, _, nameSize, fieldsSize] ← numbersAt? bytes localStart [4, 22, 2, 2] | none
  if signature = localSignature then return localStart + 30 + nameSize + fieldsSize else none

/-- The entry whose record stands at `position`, with the position behind the record. All positions in records
are `shift` bytes too small, and everything else stands in front of the directory. -/
def readAt? (bytes : ByteArray) (shift directoryStart position : Nat) : Option (Entry × Nat) := do
  let [signature, _, system, _, flags, method, _, sum, packedSize, size, nameSize, fieldsSize,
      commentSize, _, _, attributes, localStart] ←
    numbersAt? bytes position [4, 1, 1, 2, 2, 2, 4, 4, 4, 4, 2, 2, 2, 2, 2, 4, 4] | none
  if signature ≠ Entry.signature then none
  let nameBytes ← bytesAt? bytes (position + 46) nameSize
  let fields ← bytesAt? bytes (position + 46 + nameSize) fieldsSize
  let commentBytes ← bytesAt? bytes (position + 46 + nameSize + fieldsSize) commentSize
  let isUtf8 := flags.testBit 11
  let entry : Entry :=
    { name := textOf isUtf8 nameBytes, isEncrypted := flags.testBit 0,
      isLink := marksLink system attributes, method, checksum := UInt32.ofNat sum, packedSize, size,
      localStart, contentStart := 0 }
  let draft ← applyFields? fields fields.size 0
    { entry, nameBytes, comment := textOf isUtf8 commentBytes }
  if draft.entry.method = cipherMethod ∧ !draft.hasCipher then none
  let localStart := draft.entry.localStart + shift
  if localStart ≥ directoryStart then none
  let contentStart ← contentStart? bytes localStart
  if contentStart > directoryStart then none
  return ({ draft.entry with localStart, contentStart },
    position + 46 + nameSize + fieldsSize + commentSize)

/-! ### Content -/

/-- The method of content that is not packed. -/
def storedMethod : Nat := 0

/-- The method of content that can be unpacked. -/
def packedMethod : Nat := 8

/-- Whether the content can be read at all. -/
def isReadable (entry : Entry) : Bool :=
  !entry.isEncrypted && (entry.method = storedMethod || entry.method = packedMethod)

/-- Whether the entry is a file. -/
def isFile (entry : Entry) : Bool :=
  !entry.isLink && entry.name.toList.getLast? ≠ some '/' && entry.name.toList.getLast? ≠ some '\\'

/-- The most bytes that a buffer can have. Up to here memory is taken to be there when it is asked for. -/
def maxBuffer : Nat := 0x7FFFFFFFFFFFFFFF

/-- Whether the content is said to have more bytes than a buffer can have. -/
def isOverlong (entry : Entry) : Bool := maxBuffer < entry.size

/-- The content of a readable entry in the bytes of its archive, if it is undamaged. -/
def content? (entry : Entry) (bytes : ByteArray) : Option ByteArray := do
  let packed := bytes.extract entry.contentStart (entry.contentStart + entry.packedSize)
  let content ← if entry.method = packedMethod then inflate? packed else some packed
  if Archive.checksum content = entry.checksum then return content else none

end Entry

end NativeHeaders.Archive
