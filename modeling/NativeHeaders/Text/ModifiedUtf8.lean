import NativeHeaders.Text.Utf16

/-! # Texts in class files

Class files hold texts in modified UTF-8: every UTF-16 code unit is written by itself in one to three bytes, so
that characters above U+FFFF take two groups of three bytes, and U+0000 takes two bytes. `decode?` also accepts
what is plain UTF-8, and tries that first. -/

namespace NativeHeaders.Text.ModifiedUtf8

/-! ### Writing -/

/-- The bytes of a code unit. -/
def encodeUnit (unit : UInt16) : List UInt8 :=
  if 0x01 ≤ unit ∧ unit ≤ 0x7F then [unit.toUInt8]
  else if unit ≤ 0x7FF then
    [(0xC0 : UInt8) ||| (unit >>> 6).toUInt8, (0x80 : UInt8) ||| (unit &&& 0x3F).toUInt8]
  else
    [(0xE0 : UInt8) ||| (unit >>> 12).toUInt8, (0x80 : UInt8) ||| (unit >>> 6 &&& 0x3F).toUInt8,
      (0x80 : UInt8) ||| (unit &&& 0x3F).toUInt8]

/-- The bytes of code units. -/
def encodeUnits (units : List UInt16) : List UInt8 := units.flatMap encodeUnit

/-- The bytes of a text. -/
def encode (text : String) : List UInt8 := encodeUnits (units text.toList)

/-! ### Reading -/

/-- The six bits of a byte that continues a group. -/
def continuation? (byte : UInt8) : Option UInt16 :=
  if byte &&& 0xC0 = 0x80 then some (byte &&& 0x3F).toUInt16 else none

/-- The code units of bytes in modified UTF-8; groups longer than necessary are accepted. -/
def decodeUnits? : List UInt8 → Option (List UInt16)
  | [] => some []
  | first :: rest =>
    if 0x01 ≤ first ∧ first ≤ 0x7F then (decodeUnits? rest).map (first.toUInt16 :: ·)
    else if 0xC0 ≤ first ∧ first ≤ 0xDF then
      match rest with
      | second :: rest => do
        let low ← continuation? second
        let units ← decodeUnits? rest
        return ((first &&& 0x1F).toUInt16 <<< 6 ||| low) :: units
      | _ => none
    else if 0xE0 ≤ first ∧ first ≤ 0xEF then
      match rest with
      | second :: third :: rest => do
        let middle ← continuation? second
        let low ← continuation? third
        let units ← decodeUnits? rest
        return ((first &&& 0x0F).toUInt16 <<< 12 ||| middle <<< 6 ||| low) :: units
      | _ => none
    else none

/-- The text of bytes in modified UTF-8. -/
def decodeModified? (bytes : List UInt8) : Option String := do
  let units ← decodeUnits? bytes
  let chars ← charsOfUnits? units
  return String.ofList chars

/-- The text of bytes in UTF-8. -/
def decodePlain? (bytes : List UInt8) : Option String := String.fromUTF8? ⟨bytes.toArray⟩

/-- The text of bytes, in UTF-8 if they are that, and otherwise in modified UTF-8. -/
def decode? (bytes : List UInt8) : Option String :=
  match decodePlain? bytes with
  | some text => some text
  | none => decodeModified? bytes

end NativeHeaders.Text.ModifiedUtf8
