/-! # Floating point numbers from their bits

The value that the bits of a binary floating point number stand for: not a number, an infinity, or a
significand times a power of two. -/

namespace NativeHeaders.Decimal

/-- The layout of a floating point format: a sign bit, then the exponent, then the fraction. -/
structure BinaryFormat where
  /-- The number of bits of the fraction. -/
  fractionBits : Nat
  /-- The number of bits of the exponent. -/
  exponentBits : Nat

/-- The format of 32 bits. -/
def BinaryFormat.single : BinaryFormat := ⟨23, 8⟩

/-- The format of 64 bits. -/
def BinaryFormat.double : BinaryFormat := ⟨52, 11⟩

/-- The size of a finite number: `significand * 2 ^ exponent`. -/
structure Magnitude where
  /-- The significand. -/
  significand : Nat
  /-- The power of two it is multiplied by. -/
  exponent : Int
  /-- Whether the next smaller number is only half as far away as the next larger one. -/
  isLowerGapHalved : Bool
deriving DecidableEq, Repr

/-- What bits stand for. -/
inductive BinaryValue where
  /-- Not a number. -/
  | notANumber
  /-- An infinity. -/
  | infinite (negative : Bool)
  /-- A finite number. -/
  | finite (negative : Bool) (magnitude : Magnitude)
deriving DecidableEq, Repr

namespace BinaryFormat

/-- What the given bits stand for. -/
def value (format : BinaryFormat) (bits : Nat) : BinaryValue :=
  let fraction := bits % Nat.pow 2 format.fractionBits
  let biased := bits / Nat.pow 2 format.fractionBits % Nat.pow 2 format.exponentBits
  let negative := bits / Nat.pow 2 (format.fractionBits + format.exponentBits) % 2 = 1
  let least : Int := 2 - Nat.pow 2 (format.exponentBits - 1) - format.fractionBits
  if biased = Nat.pow 2 format.exponentBits - 1 then
    if fraction = 0 then .infinite negative else .notANumber
  else if biased = 0 then .finite negative ⟨fraction, least, false⟩
  else
    .finite negative
      ⟨Nat.pow 2 format.fractionBits + fraction, least + (biased - 1), fraction = 0 && biased ≠ 1⟩

end BinaryFormat

end NativeHeaders.Decimal
