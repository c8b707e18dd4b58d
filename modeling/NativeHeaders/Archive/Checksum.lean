/-! # Checksums

The cyclic redundancy check that archives store for the content of each file: the remainder of a division of
polynomials over two elements, lowest bit first, by a polynomial of degree 32. -/

namespace NativeHeaders.Archive

/-- The polynomial that is divided by, without its term of degree 32, lowest bit for the highest degree. -/
def divisor : UInt32 := 0xEDB88320

/-- The remainder after one more bit. -/
def checksumBit (remainder : UInt32) : UInt32 :=
  if remainder &&& 1 = 1 then (remainder >>> 1) ^^^ divisor else remainder >>> 1

/-- The remainder after one more byte. -/
def checksumByte (remainder : UInt32) (byte : UInt8) : UInt32 :=
  Nat.repeat checksumBit 8 (remainder ^^^ byte.toUInt32)

/-- The checksum of bytes. -/
def checksum (bytes : ByteArray) : UInt32 :=
  bytes.foldl checksumByte 0xFFFFFFFF ^^^ 0xFFFFFFFF

end NativeHeaders.Archive
