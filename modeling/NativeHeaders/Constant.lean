import NativeHeaders.Decimal.Notation

/-! # Numeric constants

The values of constant fields and how they are written in C. Integers end in `L` or `LL`, a 32-bit floating
point number in `f`; numbers that are not finite are written as quotients in parentheses, which need no
further suffix. -/

namespace NativeHeaders

/-- The value of a constant field. -/
inductive ConstantValue where
  /-- An integer of 32 bits. -/
  | int (value : Int32)
  /-- An integer of 64 bits. -/
  | long (value : Int64)
  /-- A floating point number of 32 bits. -/
  | float (bits : UInt32)
  /-- A floating point number of 64 bits. -/
  | double (bits : UInt64)
deriving DecidableEq, Repr

namespace ConstantValue

/-- The suffix of the literal. -/
def suffix : ConstantValue → String
  | .int _ => "L"
  | .long _ => "LL"
  | .float _ => "f"
  | .double _ => ""

/-- The text of a floating point number whose parts take the given suffix. -/
def binaryText (suffix : String) : Decimal.BinaryValue → String
  | .notANumber => "(0.0" ++ suffix ++ "/0.0" ++ suffix ++ ")"
  | .infinite false => "(1.0" ++ suffix ++ "/0.0" ++ suffix ++ ")"
  | .infinite true => "(-1.0" ++ suffix ++ "/0.0" ++ suffix ++ ")"
  | .finite false magnitude => String.ofList magnitude.text
  | .finite true magnitude => "-" ++ String.ofList magnitude.text

/-- The text of the value. -/
def text (value : ConstantValue) : String :=
  match value with
  | .int number => toString number.toInt
  | .long number => toString number.toInt
  | .float bits => binaryText value.suffix (Decimal.BinaryFormat.single.value bits.toNat)
  | .double bits => binaryText value.suffix (Decimal.BinaryFormat.double.value bits.toNat)

/-- The literal: the text, and the suffix unless the text is a quotient in parentheses. -/
def literal (value : ConstantValue) : String :=
  match value.text.toList with
  | '(' :: _ => value.text
  | _ => value.text ++ value.suffix

end ConstantValue

/-- A constant field with its value. -/
structure ConstantField where
  /-- The name of the field. -/
  name : String
  /-- The value of the field. -/
  value : ConstantValue
deriving DecidableEq, Repr

end NativeHeaders
