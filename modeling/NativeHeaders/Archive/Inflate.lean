import NativeHeaders.Archive.PrefixCode

/-! # Unpacking

Packed content is a sequence of blocks. A block holds bytes as they are, or words of a prefix code for single
bytes and for copies of earlier output; its code is fixed or described at its start. Every word has a bit, so
the number of bits bounds the number of words and of blocks. -/

namespace NativeHeaders.Archive.Inflate

open Bits

/-! ### Codes -/

/-- The code for bytes and lengths, and the code for distances. -/
structure Codes where
  /-- Symbols below 256 are bytes, 256 ends the block, greater ones are lengths of copies. -/
  literals : PrefixCode
  /-- The symbols stand for distances of copies. -/
  distances : PrefixCode

/-- The symbol that ends a block. -/
def endOfBlock : Nat := 256

/-- The least length of each length symbol and the number of bits that add to it. -/
def lengthSymbols : List (Nat × Nat) :=
  [(3, 0), (4, 0), (5, 0), (6, 0), (7, 0), (8, 0), (9, 0), (10, 0), (11, 1), (13, 1), (15, 1), (17, 1),
    (19, 2), (23, 2), (27, 2), (31, 2), (35, 3), (43, 3), (51, 3), (59, 3), (67, 4), (83, 4), (99, 4),
    (115, 4), (131, 5), (163, 5), (195, 5), (227, 5), (258, 0)]

/-- The least distance of each distance symbol and the number of bits that add to it. -/
def distanceSymbols : List (Nat × Nat) :=
  [(1, 0), (2, 0), (3, 0), (4, 0), (5, 1), (7, 1), (9, 2), (13, 2), (17, 3), (25, 3), (33, 4), (49, 4),
    (65, 5), (97, 5), (129, 6), (193, 6), (257, 7), (385, 7), (513, 8), (769, 8), (1025, 9), (1537, 9),
    (2049, 10), (3073, 10), (4097, 11), (6145, 11), (8193, 12), (12289, 12), (16385, 13), (24577, 13)]

/-- The codes of blocks that describe none. -/
def fixedCodes? : Option Codes := do
  let literals ← PrefixCode.ofLengths? true
    (List.replicate 144 8 ++ List.replicate 112 9 ++ List.replicate 24 7 ++ List.replicate 8 8)
  let distances ← PrefixCode.ofLengths? true (List.replicate 32 5)
  return { literals, distances }

/-- The symbols of the code for lengths of words, in the order in which their own lengths are written. -/
def lengthOrder : List Nat := [16, 17, 18, 0, 8, 7, 9, 6, 10, 5, 11, 4, 12, 3, 13, 2, 14, 1, 15]

/-- The lengths of the words that the symbols of a length code stand for, until `wanted` lengths are found;
`found` has the ones before, the latest first. Symbol 16 repeats the length before it, 17 and 18 stand for
several zeros. Every step finds a length, so that as many steps as lengths are enough. -/
def readLengths (code : PrefixCode) : Nat → Nat → List Nat → Reader (List Nat)
  | _, 0, found => return found.reverse
  | 0, _, _ => failure
  | steps + 1, wanted, found => do
    let symbol ← code.read
    let (length, times) ←
      if symbol < 16 then pure (symbol, 1)
      else if symbol = 16 then
        match found with
        | [] => failure
        | previous :: _ => do pure (previous, 3 + (← readNumber 2))
      else if symbol = 17 then do pure (0, 3 + (← readNumber 3))
      else do pure (0, 11 + (← readNumber 7))
    if times ≤ wanted then
      readLengths code steps (wanted - times) (List.replicate times length ++ found)
    else failure

/-- The numbers that the given count of readings of three bits give. -/
def readSmallNumbers : Nat → Reader (List Nat)
  | 0 => return []
  | count + 1 => do
    let first ← readNumber 3
    let rest ← readSmallNumbers count
    return first :: rest

/-- The codes described at the start of a block. -/
def readCodes : Reader Codes := do
  let literalCount := 257 + (← readNumber 5)
  let distanceCount := 1 + (← readNumber 5)
  let orderCount := 4 + (← readNumber 4)
  if literalCount > 286 || distanceCount > 30 then failure
  let written := lengthOrder.zip (← readSmallNumbers orderCount)
  let lengths := (List.range 19).map fun symbol => (written.lookup symbol).getD 0
  let code ← (PrefixCode.ofLengths? false lengths : Option PrefixCode)
  let total := literalCount + distanceCount
  let lengths ← readLengths code total total []
  let literals ← (PrefixCode.ofLengths? true (lengths.take literalCount) : Option PrefixCode)
  let distances ← (PrefixCode.ofLengths? true (lengths.drop literalCount) : Option PrefixCode)
  return { literals, distances }

/-! ### Blocks -/

/-- The output with bytes from `distance` bytes back on appended; bytes appended on the way count. -/
def copyBack (distance : Nat) : Nat → ByteArray → ByteArray
  | 0, output => output
  | count + 1, output =>
    copyBack distance count (output.push ((output[output.size - distance]?).getD 0))

/-- The number for a symbol with its further bits. -/
def readAmount (table : List (Nat × Nat)) (symbol : Nat) : Reader Nat :=
  match table[symbol]? with
  | none => failure
  | some (least, bits) => do return least + (← readNumber bits)

/-- Reads a copy for a length symbol, and appends it to the output. -/
def readCopy (codes : Codes) (symbol : Nat) (output : ByteArray) : Reader ByteArray := do
  let length ← readAmount lengthSymbols (symbol - (endOfBlock + 1))
  let distance ← readAmount distanceSymbols (← codes.distances.read)
  if distance ≤ output.size then return copyBack distance length output else failure

/-- Reads words up to the end of a block, at most as many as given, and appends what they stand for to the
output. -/
def readWords (codes : Codes) : Nat → ByteArray → Reader ByteArray
  | 0, _ => failure
  | steps + 1, output => do
    let symbol ← codes.literals.read
    if symbol < endOfBlock then readWords codes steps (output.push (UInt8.ofNat symbol))
    else if symbol = endOfBlock then return output
    else readWords codes steps (← readCopy codes symbol output)

/-- Reads a block of bytes as they are, and appends them to the output. -/
def readStored (output : ByteArray) : Reader ByteArray := do
  alignToByte
  let length ← readNumber 16
  let inverse ← readNumber 16
  if length + inverse = 0xFFFF then return output ++ (← readBytes length) else failure

/-- Reads a block of the given kind, and appends its content to the output. -/
def readBlock (kind : Nat) (output : ByteArray) : Reader ByteArray := do
  let steps := (← get).left
  match kind with
  | 0 => readStored output
  | 1 => readWords (← (fixedCodes? : Option Codes)) steps output
  | 2 => readWords (← readCodes) steps output
  | _ => failure

/-- Reads blocks up to the last one, at most as many as given. -/
def readBlocks : Nat → ByteArray → Reader ByteArray
  | 0, _ => failure
  | steps + 1, output => do
    let isLast := (← readBit) = 1
    let kind ← readNumber 2
    let output ← readBlock kind output
    if isLast then return output else readBlocks steps output

end Inflate

/-- The content that bytes are the packed form of. What stands behind the last block does not matter. -/
def inflate? (packed : ByteArray) : Option ByteArray :=
  let bits : Bits := { bytes := packed }
  ((Inflate.readBlocks bits.left .empty).run bits).map (·.1)

end NativeHeaders.Archive
