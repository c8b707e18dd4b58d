/-! # Code page 437

The character set of names in archives that do not say they use UTF-8. Bytes below 80 stand for ASCII
characters, and a table lists the others. -/

namespace NativeHeaders.Text

/-- The characters of the bytes from 80 on, in order. -/
def codePage437High : List Char :=
  ("ÇüéâäàåçêëèïîìÄÅÉæÆôöòûùÿÖÜ¢£¥₧ƒáíóúñÑªº¿⌐¬½¼¡«»░▒▓│┤╡╢╖╕╣║╗╝╜╛┐" ++
    "└┴┬├─┼╞╟╚╔╩╦╠═╬╧╨╤╥╙╘╒╓╫╪┘┌█▄▌▐▀αßΓπΣσµτΦΘΩδ∞φε∩≡±≥≤⌠⌡÷≈°∙·√ⁿ²■\u00A0").toList

/-- The character of a byte. -/
def charOfCodePage437 (byte : UInt8) : Char :=
  if byte < 0x80 then Char.ofNat byte.toNat
  else codePage437High.getD (byte.toNat - 0x80) '\x00'

/-- The text of bytes. -/
def textOfCodePage437 (bytes : List UInt8) : String :=
  String.ofList (bytes.map charOfCodePage437)

end NativeHeaders.Text
