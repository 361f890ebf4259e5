import ApiUnion.Text.Utf8

-- Names and comments in archives. A flag tells whether they are in Unicode; otherwise they are in
-- the code page of the first machines that wrote archives.

namespace ApiUnion.Archive

-- The characters of the upper half of the code page.
def upperHalf : List Char :=
  ("ÇüéâäàåçêëèïîìÄÅÉæÆôöòûùÿÖÜ¢£¥₧ƒáíóúñÑªº¿⌐¬½¼¡«»░▒▓│┤╡╢╖╕╣║╗╝╜╛┐" ++
    "└┴┬├─┼╞╟╚╔╩╦╠═╬╧╨╤╥╙╘╒╓╫╪┘┌█▄▌▐▀αßΓπΣσµτΦΘΩδ∞φε∩≡±≥≤⌠⌡÷≈°∙·√ⁿ²■\u00a0").toList

def pageChar (byte : UInt8) : Char :=
  if byte < 0x80 then Char.ofNat byte.toNat else upperHalf.getD (byte.toNat - 0x80) '?'

def nameOf (isUnicode : Bool) (bytes : List UInt8) : String :=
  if isUnicode then Text.decodeUtf8 bytes else String.ofList (bytes.map pageChar)

end ApiUnion.Archive
