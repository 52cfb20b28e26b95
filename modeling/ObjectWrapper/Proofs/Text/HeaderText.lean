import ObjectWrapper.Proofs.Text.ByteText
import ObjectWrapper.Proofs.Text.Unicode

namespace ObjectWrapper
namespace ByteText

/-!
# Unicode text as header text

Header text has one character for each byte.  Unicode text is brought into this form by way of
its UTF-8 bytes: ASCII characters stay what they are, and every other one becomes a run of
characters beyond ASCII, which may be control characters or spaces in Latin-1.  No two texts
become the same.
-/

theorem ofByte_injective : Function.Injective ofByte := by
  intro first second same
  rw [← UInt8.toNat_inj, ← toNat_ofByte, same, toNat_ofByte]

theorem ofUnicode_injective : Function.Injective ofUnicode := by
  intro first second same
  exact Unicode.encode_injective
    (List.map_injective_iff.mpr ofByte_injective (String.ofList_injective same))

theorem ofUnicode_append (first second : String) :
    ofUnicode (first ++ second) = ofUnicode first ++ ofUnicode second := by
  rw [ofUnicode, Unicode.encode_append, ofBytes, List.map_append, String.ofList_append]
  rfl

/-! ## Characters -/

/-- What a character of Unicode text becomes. -/
def characters (character : Char) : List Char :=
  (String.utf8EncodeChar character).map ofByte

theorem toList_ofUnicode (text : String) :
    (ofUnicode text).toList = text.toList.flatMap characters := by
  rw [ofUnicode, ofBytes, String.toList_ofList, Unicode.encode, List.map_flatMap]
  rfl

theorem characters_of_ascii {character : Char} (ascii : character.toNat < 128) :
    characters character = [character] := by
  have small : character.val.toNat ≤ 127 := Nat.le_of_lt_succ ascii
  have single : String.utf8EncodeChar character = [character.toNat.toUInt8] := by
    unfold String.utf8EncodeChar
    simp only [if_pos small]
    rfl
  rw [characters, single, List.map_singleton, ofByte_toUInt8 (by omega)]

/-- ASCII text is header text already. -/
theorem ofUnicode_of_ascii {text : String}
    (ascii : text.toList.all (·.toNat < 128) = true) : ofUnicode text = text := by
  have each : text.toList.flatMap characters = text.toList.flatMap fun character => [character] :=
    List.flatMap_congr fun character member =>
      characters_of_ascii (of_decide_eq_true (List.all_eq_true.mp ascii character member))
  rw [← String.toList_inj, toList_ofUnicode, each, List.flatMap_singleton']

theorem characters_ne_nil (character : Char) : characters character ≠ [] :=
  mt List.map_eq_nil_iff.mp String.utf8EncodeChar_ne_nil

theorem high_of_mem_characters {character other : Char} (high : 128 ≤ character.toNat)
    (member : other ∈ characters character) : 128 ≤ other.toNat := by
  rcases List.mem_map.mp member with ⟨byte, inBytes, rfl⟩
  rw [toNat_ofByte]
  exact high_of_mem_utf8EncodeChar high inBytes

/-- A character of header text stands for itself, or is part of one beyond ASCII. -/
theorem mem_or_high_of_mem_ofUnicode {text : String} {character : Char}
    (member : character ∈ (ofUnicode text).toList) :
    character ∈ text.toList ∨ 128 ≤ character.toNat := by
  rw [toList_ofUnicode, List.mem_flatMap] at member
  rcases member with ⟨other, inText, inside⟩
  by_cases ascii : other.toNat < 128
  · rw [characters_of_ascii ascii, List.mem_singleton] at inside
    exact .inl (inside ▸ inText)
  · exact .inr (high_of_mem_characters (Nat.le_of_not_lt ascii) inside)

end ByteText
end ObjectWrapper
