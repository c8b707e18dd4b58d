import NativeHeaders.Archive.Entry

/-! # Directories of archives

The directory of an archive lists its entries and stands behind them, and an end record behind the directory says
where it starts. Bytes may stand in front of the archive, so that all positions in records are too small, and
behind it. The end record is therefore looked for from the back, and the one that leads to a directory all of
whose records can be read counts. -/

namespace NativeHeaders.Archive

/-- Where a directory stands. -/
structure Placement where
  /-- Where the first record of the directory starts. -/
  start : Nat
  /-- By how much the positions in records are too small. -/
  shift : Nat
  /-- The number of entries. -/
  count : Nat
deriving DecidableEq, Repr

namespace Placement

/-! ### End records -/

/-- The signature of an end record. -/
def endSignature : Nat := 0x06054B50

/-- The number of bytes of an end record in front of its comment. -/
def endSize : Nat := 22

/-- The signature of the long form of an end record. -/
def longEndSignature : Nat := 0x06064B50

/-- The number of bytes of a long end record in front of its further data. -/
def longEndSize : Nat := 56

/-- The signature of a record that says where the long end record stands. -/
@[match_pattern] def locatorSignature : Nat := 0x07064B50

/-- The number of bytes of such a record. -/
def locatorSize : Nat := 20

/-- The placement for an end record at `position` that tells everything itself. -/
def ofShortEnd? (bytes : ByteArray) (position count total start : Nat) : Option Placement :=
  if total = 0 then some { start := start + (position - start), shift := position - start, count }
  else do
    let found ← firstFrom? bytes Entry.signature start (position - 3 - start)
    return { start := found, shift := found - start, count }

/-- The placement for the long end record that a locator expects at `expected` and that stands at `position`,
right in front of the locator. -/
def ofLongEndAt? (bytes : ByteArray) (locator expected disk position : Nat) : Option Placement := do
  let [_, recordSize, writtenBy, neededBy, thisDisk, directoryDisk, count, total, _, start] ←
    numbersAt? bytes position [4, 8, 2, 2, 4, 4, 8, 8, 8, 8] | none
  let shift := position - expected
  if recordSize + 12 < longEndSize ∨ position + recordSize + 12 ≠ locator then none
  if directoryDisk ≠ disk ∨ thisDisk ≠ directoryDisk then none
  if start + 46 * total > position ∨ count > total ∨ neededBy > writtenBy then none
  return { start := start + shift, shift, count := total }

/-- The placement for the long end record to which the locator at a position leads. -/
def ofLocator? (bytes : ByteArray) (locator disk expected disks : Nat) : Option Placement :=
  if expected ≥ locator ∨ disks > 1 then none
  else (allFrom bytes longEndSignature expected (locator - 3 - expected)).firstM
    (ofLongEndAt? bytes locator expected disk)

/-- The placement for the end record at `position`. A number with all bits set says that there may be a long end
record, which counts if a locator for it stands in front. -/
def ofEnd? (bytes : ByteArray) (position : Nat) : Option Placement := do
  let [_, disk, directoryDisk, count, total, _, start, commentSize] ←
    numbersAt? bytes position [4, 2, 2, 2, 2, 4, 4, 2] | none
  if position + endSize + commentSize > bytes.size then none
  let locator := position - locatorSize
  let isLong := (total = 0xFFFF || start = Entry.deferred) && locatorSize ≤ position
  match isLong, numbersAt? bytes locator [4, 4, 8, 4] with
  | true, some [locatorSignature, locatorDisk, expected, disks] =>
    ofLocator? bytes locator locatorDisk expected disks
  | _, _ =>
    if total ≠ 0 ∧ start ≥ position ∨ disk ≠ directoryDisk then none
    else ofShortEnd? bytes position count total start

end Placement

/-! ### Entries -/

/-- The entries whose records stand one behind the other from `position` on. -/
def readEntries? (bytes : ByteArray) (placement : Placement) : Nat → Nat → Option (List Entry)
  | 0, _ => some []
  | count + 1, position => do
    let (entry, next) ← Entry.readAt? bytes placement.shift placement.start position
    let entries ← readEntries? bytes placement count next
    return entry :: entries

/-- The entries of the directory to which the end record at `position` leads. -/
def entriesForEnd? (bytes : ByteArray) (position : Nat) : Option (List Entry) := do
  let placement ← Placement.ofEnd? bytes position
  readEntries? bytes placement placement.count placement.start

/-- The entries of the directory to which the last suitable end record in front of `limit` leads. -/
def entriesBelow? (bytes : ByteArray) (limit : Nat) : Option (List Entry) :=
  match h : lastBelow? bytes Placement.endSignature limit with
  | none => none
  | some position =>
    have := lastBelow?_lt h
    match entriesForEnd? bytes position with
    | some entries => some entries
    | none => entriesBelow? bytes position
termination_by limit

/-- The entries of an archive, in the order of its directory; none if the bytes are no archive. -/
def entries? (bytes : ByteArray) : Option (List Entry) := entriesBelow? bytes bytes.size

end NativeHeaders.Archive
