import NativeHeaders.Archive.Bits

/-! # Prefix codes

A prefix code gives each symbol a word of bits, and no word starts another one. The lengths of the words fix
the code: shorter words come before longer ones, words of one length are in the order of their symbols, and each
word is the least one that can follow. -/

namespace NativeHeaders.Archive

/-- A prefix code with words of at most fifteen bits. -/
structure PrefixCode where
  /-- How many words have one bit, how many have two, and so on. -/
  counts : List Nat
  /-- The symbols in the order of their words. -/
  symbols : Array Nat

namespace PrefixCode

/-- The greatest length of a word. -/
def maxLength : Nat := 15

/-- The number of words that can still be formed behind words of the given counts, where `free` words of the
length before are not taken; none if there are more words than can be formed. -/
def freeWords? : Nat → List Nat → Option Nat
  | free, [] => some free
  | free, count :: counts =>
    if count ≤ 2 * free then freeWords? (2 * free - count) counts else none

/-- The numbers of the symbols whose words have the given length. -/
def symbolsOfLength (lengths : List Nat) (length : Nat) : List Nat :=
  (lengths.zipIdx.filter (·.1 = length)).map (·.2)

/-- The code whose words have the given lengths, where zero stands for a symbol without word. All words must be
in use, but a code with at most one word, if such a code is allowed, may leave words over. -/
def ofLengths? (allowsSingle : Bool) (lengths : List Nat) : Option PrefixCode :=
  let groups := (List.range maxLength).map fun shorter => symbolsOfLength lengths (shorter + 1)
  let code : PrefixCode := { counts := groups.map List.length, symbols := groups.flatten.toArray }
  match freeWords? 1 code.counts with
  | none => none
  | some free =>
    if free = 0 || (allowsSingle && code.symbols.size ≤ 1) then some code else none

/-- Reads the rest of a word. The word read so far is the one with the given rank behind all words of its
length and shorter ones, of which there are `shorter`. -/
def readFrom (symbols : Array Nat) : List Nat → Nat → Nat → Bits.Reader Nat
  | [], _, _ => failure
  | count :: counts, rank, shorter => do
    let rank := 2 * rank + (← Bits.readBit)
    if rank < count then
      match symbols[shorter + rank]? with
      | some symbol => return symbol
      | none => failure
    else readFrom symbols counts (rank - count) (shorter + count)

/-- Reads a word and gives its symbol. -/
def read (code : PrefixCode) : Bits.Reader Nat := readFrom code.symbols code.counts 0 0

end PrefixCode

end NativeHeaders.Archive
