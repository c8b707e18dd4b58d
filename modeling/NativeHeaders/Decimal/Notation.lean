import NativeHeaders.Decimal.Shortest

/-! # Decimal notation

How a decimal is written: with a point if its leading digit stands between `10 ^ -4` and `10 ^ 15`, and with
an exponent otherwise. With a point there is at least one digit on each side of it; with an exponent the point
follows the leading digit and is left out if no digit follows. -/

namespace NativeHeaders.Decimal

namespace Scientific

/-- The number without zeros at its end. -/
def trimmed (number : Scientific) : Scientific :=
  let digits := Nat.toDigits 10 number.digits
  let kept := (digits.reverse.dropWhile (· = '0')).reverse
  { digits := number.digits / Nat.pow 10 (digits.length - kept.length)
    exponent := number.exponent + (digits.length - kept.length) }

/-- The number with a point, `leading` digits of it standing before the point. -/
def positional (digits : List Char) (leading : Int) : List Char :=
  if leading ≤ 0 then '0' :: '.' :: (List.replicate (-leading).toNat '0' ++ digits)
  else
    let whole := digits.take leading.toNat
    let fraction := digits.drop leading.toNat
    whole ++ List.replicate (leading.toNat - digits.length) '0' ++
      '.' :: (if fraction.isEmpty then ['0'] else fraction)

/-- The number with an exponent. -/
def exponential (digits : List Char) (exponent : Int) : List Char :=
  let mantissa := match digits with
    | first :: next :: rest => first :: '.' :: next :: rest
    | digits => digits
  mantissa ++ 'e' :: (toString exponent).toList

/-- The least power of ten of a leading digit that is written with a point. -/
def leastPositional : Int := -4

/-- The least power of ten of a leading digit, above those, that is written with an exponent. -/
def leastExponential : Int := 16

/-- How a positive number is written. -/
def text (number : Scientific) : List Char :=
  let number := number.trimmed
  let digits := Nat.toDigits 10 number.digits
  let power := digits.length + number.exponent - 1
  if leastPositional ≤ power ∧ power < leastExponential then positional digits (power + 1)
  else exponential digits power

end Scientific

/-- How a magnitude is written: as its shortest decimal. -/
def Magnitude.text (magnitude : Magnitude) : List Char :=
  if magnitude.significand = 0 then ['0', '.', '0'] else (shortest magnitude).text

end NativeHeaders.Decimal
