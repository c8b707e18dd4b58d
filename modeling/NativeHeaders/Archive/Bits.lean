/-! # Bits of packed content

Packed content is read bit by bit, the lowest bit of each byte first. Numbers are written lowest bit first too,
and some pieces start at the next full byte. -/

namespace NativeHeaders.Archive

/-- Bytes of which some bits have been read. -/
structure Bits where
  /-- All bytes. -/
  bytes : ByteArray
  /-- How many bits have been read. -/
  position : Nat := 0

namespace Bits

/-- The number of bits not read yet. -/
def left (bits : Bits) : Nat := bits.bytes.size * 8 - bits.position

/-- A step that reads bits, and fails if it needs more than there are or if they make no sense. -/
abbrev Reader := StateT Bits Option

/-- The next bit. -/
def readBit : Reader Nat := fun bits =>
  match bits.bytes[bits.position / 8]? with
  | none => none
  | some byte =>
    some ((byte.toNat >>> (bits.position % 8)) % 2, { bits with position := bits.position + 1 })

/-- The number that the given count of bits stands for, lowest bit first. -/
def readNumber : Nat → Reader Nat
  | 0 => return 0
  | count + 1 => do
    let low ← readBit
    let high ← readNumber count
    return low + 2 * high

/-- Passes over the bits up to the next full byte. -/
def alignToByte : Reader Unit :=
  modify fun bits => { bits with position := (bits.position + 7) / 8 * 8 }

/-- The next bytes, exactly as many as asked for, where all bits of the bytes before have been read. -/
def readBytes (count : Nat) : Reader ByteArray := fun bits =>
  let start := bits.position / 8
  if start + count ≤ bits.bytes.size then
    some (bits.bytes.extract start (start + count), { bits with position := (start + count) * 8 })
  else none

end Bits

end NativeHeaders.Archive
