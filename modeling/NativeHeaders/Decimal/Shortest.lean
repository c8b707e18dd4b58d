import NativeHeaders.Decimal.Binary

/-! # Shortest decimals

The decimal with the fewest digits among those that round to a given floating point number, and among these
the one nearest to it; of two equally near the larger. The numbers that round to a number lie between the
midpoints to its neighbours, and the midpoints belong to them if the significand is even. All arithmetic is
exact: with one digit, two digits and so on, the two decimals around the number are tried. -/

namespace NativeHeaders.Decimal

/-- The number `digits * 10 ^ exponent`. -/
structure Scientific where
  /-- The digits, read as one number. -/
  digits : Nat
  /-- The power of ten of the last digit. -/
  exponent : Int
deriving DecidableEq, Repr

/-- The numbers that round to a number: fractions with one denominator. -/
structure RoundingInterval where
  /-- The numerator of the lower end. -/
  lower : Nat
  /-- The numerator of the number itself. -/
  centre : Nat
  /-- The numerator of the upper end. -/
  upper : Nat
  /-- The denominator. -/
  denominator : Nat
  /-- Whether the ends round to the number as well. -/
  isClosed : Bool
deriving DecidableEq, Repr

namespace RoundingInterval

/-- The numbers that round to a magnitude. -/
def ofMagnitude (magnitude : Magnitude) : RoundingInterval :=
  let scale := Nat.pow 2 (magnitude.exponent - 2).toNat
  { lower := (4 * magnitude.significand - if magnitude.isLowerGapHalved then 1 else 2) * scale
    centre := 4 * magnitude.significand * scale
    upper := (4 * magnitude.significand + 2) * scale
    denominator := Nat.pow 2 (2 - magnitude.exponent).toNat
    isClosed := magnitude.significand % 2 = 0 }

/-- The interval divided by a power of ten. -/
def scaled (interval : RoundingInterval) (exponent : Int) : RoundingInterval :=
  let up := Nat.pow 10 (-exponent).toNat
  { interval with
    lower := interval.lower * up
    centre := interval.centre * up
    upper := interval.upper * up
    denominator := interval.denominator * Nat.pow 10 exponent.toNat }

/-- Whether a whole number rounds to the number. -/
def holds (interval : RoundingInterval) (n : Nat) : Bool :=
  let numerator := n * interval.denominator
  if interval.isClosed then interval.lower ≤ numerator && numerator ≤ interval.upper
  else interval.lower < numerator && numerator < interval.upper

/-- The whole number nearest to the number among its two neighbours that round to it. -/
def nearest? (interval : RoundingInterval) : Option Nat :=
  let below := interval.centre / interval.denominator
  let remainder := interval.centre % interval.denominator
  match interval.holds below, interval.holds (below + 1) with
  | false, false => none
  | true, false => some below
  | false, true => some (below + 1)
  | true, true =>
    if 2 * remainder < interval.denominator then some below else some (below + 1)

end RoundingInterval

/-- The number of decimal digits. -/
def digitCount (n : Nat) : Nat := (Nat.toDigits 10 n).length

/-- The power of ten above a positive fraction, `10 ^ (e - 1) ≤ numerator / denominator < 10 ^ e`. -/
def decimalExponent (numerator denominator : Nat) : Int :=
  if denominator ≤ numerator then digitCount (numerator / denominator)
  else
    let inverse := (denominator + numerator - 1) / numerator
    1 - digitCount (inverse - 1)

/-- Tries decimals with one more digit each time, the last with unit `10 ^ unit`. -/
def searchDigits (interval : RoundingInterval) : Nat → Int → Scientific
  | 0, unit => ⟨interval.centre / interval.denominator, unit⟩
  | tries + 1, unit =>
    match (interval.scaled unit).nearest? with
    | some digits => ⟨digits, unit⟩
    | none => searchDigits interval tries (unit - 1)

/-- The most digits a shortest decimal of a magnitude can have. -/
def maxDigits (magnitude : Magnitude) : Nat := digitCount magnitude.significand + 2

/-- The shortest decimal that rounds to a positive magnitude. -/
def shortest (magnitude : Magnitude) : Scientific :=
  let interval := RoundingInterval.ofMagnitude magnitude
  let above := decimalExponent interval.centre interval.denominator
  searchDigits interval (maxDigits magnitude) (above - 1)

end NativeHeaders.Decimal
