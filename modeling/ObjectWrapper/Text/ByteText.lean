import ObjectWrapper.Text.Unicode

namespace ObjectWrapper
namespace ByteText

/-!
# Text that keeps its bytes

A header is a list of bytes and need not be Unicode text.  It is read with one
character per byte, U+0000 to U+00FF, so that whatever is not touched can be
written back as the same bytes.  Text of another origin may hold characters
above U+00FF; these are written as UTF-8, since no byte stands for them.
-/

/-- The character that stands for a byte. -/
def ofByte (byte : UInt8) : Char :=
  Char.ofNat byte.toNat

/-- The text of a byte list, one character per byte. -/
def ofBytes (bytes : List UInt8) : String :=
  String.ofList (bytes.map ofByte)

/-- The bytes one character is written as. -/
def charBytes (character : Char) : List UInt8 :=
  if character.toNat < 256 then [character.toNat.toUInt8]
  else String.utf8EncodeChar character

/-- The bytes a text is written as. -/
def toBytes (text : String) : List UInt8 :=
  text.toList.flatMap charBytes

/-- The text that the UTF-8 bytes of a Unicode text are read as. -/
def ofUnicode (text : String) : String :=
  ofBytes (Unicode.encode text)

end ByteText
end ObjectWrapper
