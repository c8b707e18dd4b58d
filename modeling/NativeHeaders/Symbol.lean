import NativeHeaders.Descriptor
import NativeHeaders.Text.Hexadecimal
import NativeHeaders.Text.Utf16

/-! # Linker symbols

The name under which a native method is linked: `Java_`, the escaped class, `_`, the escaped method, and for
an overloaded method two more underscores and the escaped parameter types. Escaping leaves only ASCII
letters, digits and `_`: a letter or digit stands for itself, `/` is written `_`, and `_`, `;` and `[` are
written `_1`, `_2` and `_3`; every other UTF-16 code unit is written `_0` and four hexadecimal digits. -/

namespace NativeHeaders.Symbol

/-- How a code unit is written. -/
def escapeUnit (unit : UInt16) : List Char :=
  let c := Char.ofNat unit.toNat
  if c = '_' then ['_', '1']
  else if c = ';' then ['_', '2']
  else if c = '[' then ['_', '3']
  else if c = '/' then ['_']
  else if c.isAlphanum then [c]
  else '_' :: '0' :: Text.hexDigits 4 unit.toNat

/-- How characters are written. -/
def escapeChars (chars : List Char) : List Char := (Text.units chars).flatMap escapeUnit

/-- How a text is written in a symbol. -/
def escape (text : String) : String := String.ofList (escapeChars text.toList)

/-- The symbol of a method; the long form, with the parameters, if `overload` gives its types. -/
def ofMethod (className methodName : String) (overload : Option MethodDescriptor) : String :=
  let short := "Java_" ++ escape className ++ "_" ++ escape methodName
  match overload with
  | none => short
  | some types => short ++ "__" ++ escape types.parameterDescriptors

/-- Nothing is escaped as nothing. -/
@[simp] theorem escapeChars_nil : escapeChars [] = [] := rfl

/-- Characters are escaped one by one, so that parts of a text can be escaped on their own. -/
theorem escapeChars_append (first second : List Char) :
    escapeChars (first ++ second) = escapeChars first ++ escapeChars second := by
  simp [escapeChars, Text.units_append]

end NativeHeaders.Symbol
