/-! # Records in archives

Archives consist of records with numbers in little-endian order, and each kind of record starts with a
signature. Readers of records give nothing if the bytes end too early. -/

namespace NativeHeaders.Archive

/-- The number that the given count of bytes from `start` on stand for, lowest byte first. -/
def numberAt? (bytes : ByteArray) (start : Nat) : Nat → Option Nat
  | 0 => some 0
  | count + 1 => do
    let low ← bytes[start]?
    let high ← numberAt? bytes (start + 1) count
    return low.toNat + 256 * high

/-- The numbers of the given widths that stand one behind the other from `start` on. -/
def numbersAt? (bytes : ByteArray) (start : Nat) : List Nat → Option (List Nat)
  | [] => some []
  | width :: widths => do
    let first ← numberAt? bytes start width
    let rest ← numbersAt? bytes (start + width) widths
    return first :: rest

/-- The bytes from `start` on, exactly as many as asked for. -/
def bytesAt? (bytes : ByteArray) (start count : Nat) : Option ByteArray :=
  if start + count ≤ bytes.size then some (bytes.extract start (start + count)) else none

/-- Whether a signature stands at a position. -/
def hasSignature (bytes : ByteArray) (signature position : Nat) : Bool :=
  numberAt? bytes position 4 = some signature

/-- The last position below `limit` at which a signature stands. -/
def lastBelow? (bytes : ByteArray) (signature : Nat) : Nat → Option Nat
  | 0 => none
  | limit + 1 =>
    if hasSignature bytes signature limit then some limit else lastBelow? bytes signature limit

/-- The first position from `start` on at which a signature stands, among the given count of positions. -/
def firstFrom? (bytes : ByteArray) (signature start : Nat) : Nat → Option Nat
  | 0 => none
  | count + 1 =>
    if hasSignature bytes signature start then some start
    else firstFrom? bytes signature (start + 1) count

/-- The positions from `start` on at which a signature stands, among the given count of positions. -/
def allFrom (bytes : ByteArray) (signature start count : Nat) : List Nat :=
  (List.range' start count).filter (hasSignature bytes signature)

/-- The position that `lastBelow?` finds stands below the limit. -/
theorem lastBelow?_lt {bytes : ByteArray} {signature limit position : Nat}
    (h : lastBelow? bytes signature limit = some position) : position < limit := by
  induction limit with
  | zero => simp [lastBelow?] at h
  | succ limit ih =>
    rw [lastBelow?] at h
    split at h
    · cases h; exact Nat.lt_succ_self _
    · exact Nat.lt_succ_of_lt (ih h)

end NativeHeaders.Archive
