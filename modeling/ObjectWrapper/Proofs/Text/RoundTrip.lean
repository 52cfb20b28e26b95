import Mathlib.Data.Set.Function
import ObjectWrapper.Proofs.Text.HeaderText

namespace ObjectWrapper
namespace ByteText

/-!
# Bytes written back

Reading takes every byte list to a text, and writing takes that text to the same bytes.
The other way round there is less: a character above U+00FF is written as UTF-8, and
its bytes are read as two or more characters.  The texts that are read again from their
bytes are those without such characters, and these are the texts that bytes are read as.
Unicode text has the form of header text once it is read from its UTF-8 bytes, and is
then written as these bytes.
-/

/-! ## Bytes of a text that was read -/

theorem charBytes_ofByte (byte : UInt8) : charBytes (ofByte byte) = [byte] := by
  rw [charBytes, toNat_ofByte, if_pos byte.toNat_lt, Nat.toUInt8_eq, UInt8.ofNat_toNat]

/-- What is read is written as the bytes it was read from. -/
theorem toBytes_ofBytes (bytes : List UInt8) : toBytes (ofBytes bytes) = bytes := by
  have single : ∀ byte ∈ bytes, charBytes (ofByte byte) = [byte] :=
    fun byte _ => charBytes_ofByte byte
  rw [toBytes, ofBytes, String.toList_ofList, List.flatMap_map, List.flatMap_congr single,
    List.flatMap_singleton']

/-! ## Texts that are read again -/

theorem ofBytes_toBytes_iff {text : String} :
    ofBytes (toBytes text) = text ↔ IsByteText text.toList := by
  refine ⟨fun same => ?_, ofBytes_toBytes⟩
  rw [← same]
  exact isByteText_ofBytes _

/-- The texts that some bytes are read as. -/
theorem mem_range_ofBytes_iff {text : String} :
    text ∈ Set.range ofBytes ↔ IsByteText text.toList := by
  constructor
  · rintro ⟨bytes, rfl⟩
    exact isByteText_ofBytes bytes
  · intro isByteText
    exact ⟨toBytes text, ofBytes_toBytes isByteText⟩

/-- Two texts that were read are different bytes if they are different texts. -/
theorem injOn_toBytes : Set.InjOn toBytes (Set.range ofBytes) := by
  intro first firstRead second secondRead same
  rw [← ofBytes_toBytes (mem_range_ofBytes_iff.mp firstRead), same,
    ofBytes_toBytes (mem_range_ofBytes_iff.mp secondRead)]

/-- Beyond them writing is not injective: the UTF-8 bytes of a character are also the
bytes of the characters that they are read as. -/
example : toBytes "\u0100" = toBytes "\u00c4\u0080" := by decide +kernel

/-! ## Unicode text -/

theorem toBytes_ofUnicode (text : String) : toBytes (ofUnicode text) = Unicode.encode text :=
  toBytes_ofBytes _

/-- Reading and writing are exact: no byte is changed, a text is read again from its
bytes just if all its characters stand for bytes, texts that were read are told apart by
their bytes, and Unicode text is written as its UTF-8 bytes, which tell what it was. -/
theorem toBytes_ofBytes_and_ofBytes_toBytes_iff :
    (∀ bytes, toBytes (ofBytes bytes) = bytes) ∧
      (∀ text, ofBytes (toBytes text) = text ↔
        ∀ character ∈ text.toList, character.toNat ≤ 0xff) ∧
      Set.InjOn toBytes (Set.range ofBytes) ∧
      ∀ text, toBytes (ofUnicode text) = text.toUTF8.data.toList ∧
        Unicode.decode? (toBytes (ofUnicode text)) = some text := by
  refine ⟨toBytes_ofBytes, fun text => ?_, injOn_toBytes, fun text => ?_⟩
  · rw [ofBytes_toBytes_iff]
    exact forall₂_congr fun _ _ => Nat.lt_succ_iff
  · rw [toBytes_ofUnicode, Unicode.toList_toUTF8]
    exact ⟨rfl, Unicode.decode?_encode text⟩

end ByteText
end ObjectWrapper
