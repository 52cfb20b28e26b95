import Mathlib.Data.List.Basic
import ObjectWrapper.Text.ByteText

namespace ObjectWrapper
namespace ByteText

/-!
# Bytes and characters

Text with no character above U+00FF has one byte for each character, and reading these
bytes gives the text again.  What is read from bytes is such a text.  Whatever a text
holds, its line feeds are the only characters that are written with the byte of a line
feed.
-/

/-- Every character of the text stands for a byte. -/
def IsByteText (text : List Char) : Prop :=
  ∀ character ∈ text, character.toNat < 256

instance (text : List Char) : Decidable (IsByteText text) :=
  List.decidableBAll (fun character : Char => character.toNat < 256) text

theorem IsByteText.of_subset {first second : List Char} (isByteText : IsByteText second)
    (subset : first ⊆ second) : IsByteText first :=
  fun character member => isByteText character (subset member)

theorem IsByteText.append {first second : List Char} (firstIs : IsByteText first)
    (secondIs : IsByteText second) : IsByteText (first ++ second) :=
  fun character member => (List.mem_append.mp member).elim (firstIs character) (secondIs character)

theorem toNat_ofByte (byte : UInt8) : (ofByte byte).toNat = byte.toNat := by
  have small := byte.toNat_lt
  have valid : Nat.isValidChar byte.toNat := Or.inl (by omega)
  rw [ofByte, Char.ofNat, dif_pos valid]
  rfl

theorem ofByte_toUInt8 {character : Char} (small : character.toNat < 256) :
    ofByte character.toNat.toUInt8 = character := by
  have kept : character.toNat.toUInt8.toNat = character.toNat := Nat.mod_eq_of_lt small
  rw [ofByte, kept, Char.ofNat_toNat]

theorem isByteText_ofBytes (bytes : List UInt8) : IsByteText (ofBytes bytes).toList := by
  intro character member
  rw [ofBytes, String.toList_ofList, List.mem_map] at member
  rcases member with ⟨byte, _, rfl⟩
  rw [toNat_ofByte]
  exact byte.toNat_lt

/-- Text that stands for bytes is read again from the bytes it is written as. -/
theorem ofBytes_toBytes {text : String} (isByteText : IsByteText text.toList) :
    ofBytes (toBytes text) = text := by
  have single : ∀ character ∈ text.toList,
      charBytes character = [character.toNat.toUInt8] :=
    fun character member => if_pos (isByteText character member)
  have bytes : toBytes text = text.toList.map fun character => character.toNat.toUInt8 := by
    rw [toBytes, List.flatMap_congr single, List.map_eq_flatMap]
  have again : ∀ character ∈ text.toList, ofByte character.toNat.toUInt8 = character :=
    fun character member => ofByte_toUInt8 (isByteText character member)
  rw [ofBytes, bytes, List.map_map]
  change String.ofList (text.toList.map fun character => ofByte character.toNat.toUInt8) = text
  rw [List.map_congr_left again, List.map_id', String.ofList_toList]

/-! ## Line feeds -/

/-- Every byte of a character that takes more than one has its highest bit set. -/
theorem high_of_mem_utf8EncodeChar {character : Char} (large : 127 < character.toNat)
    {byte : UInt8} (member : byte ∈ String.utf8EncodeChar character) : 128 ≤ byte.toNat := by
  change 127 < character.val.toNat at large
  unfold String.utf8EncodeChar at member
  simp only at member
  split at member
  · omega
  split at member
  · simp only [List.mem_cons, List.not_mem_nil, or_false] at member
    rcases member with rfl | rfl <;> rw [UInt8.toNat_ofNat'] <;> omega
  split at member
  · simp only [List.mem_cons, List.not_mem_nil, or_false] at member
    rcases member with rfl | rfl | rfl <;> rw [UInt8.toNat_ofNat'] <;> omega
  · simp only [List.mem_cons, List.not_mem_nil, or_false] at member
    rcases member with rfl | rfl | rfl | rfl <;> rw [UInt8.toNat_ofNat'] <;> omega

theorem toUInt8_eq_lineFeed_iff {character : Char} (small : character.toNat < 256) :
    character.toNat.toUInt8 = 10 ↔ character = '\n' := by
  constructor
  · intro same
    rw [← ofByte_toUInt8 small, same]
    rfl
  · rintro rfl
    rfl

/-- The byte of a line feed stands for line feeds only, and for each of them. -/
theorem count_charBytes (character : Char) :
    (charBytes character).count 10 = if character = '\n' then 1 else 0 := by
  rw [charBytes]
  split
  · rename_i small
    rw [List.count_singleton]
    simp only [beq_iff_eq, toUInt8_eq_lineFeed_iff small]
  · rename_i large
    have noLineFeed : character ≠ '\n' := by
      rintro rfl
      exact large (by decide)
    rw [if_neg noLineFeed, List.count_eq_zero]
    intro member
    have high := high_of_mem_utf8EncodeChar (by omega) member
    exact absurd high (by decide)

/-- A text is written with as many line feeds as it has. -/
theorem count_toBytes (text : String) : (toBytes text).count 10 = text.toList.count '\n' := by
  rw [toBytes]
  induction text.toList with
  | nil => rfl
  | cons character rest ih =>
      rw [List.flatMap_cons, List.count_append, count_charBytes, ih, List.count_cons]
      simp only [beq_iff_eq]
      exact Nat.add_comm _ _

theorem flatMap_charBytes_replicate (count : Nat) :
    (List.replicate count '\n').flatMap charBytes = List.replicate count 10 := by
  induction count with
  | zero => rfl
  | succ count ih =>
      rw [List.replicate_succ, List.flatMap_cons, ih]
      rfl

theorem ofByte_eq_lineFeed_iff (byte : UInt8) : ofByte byte = '\n' ↔ byte = 10 := by
  constructor
  · intro same
    rw [← UInt8.toNat_inj, ← toNat_ofByte, same]
    rfl
  · rintro rfl
    rfl

/-- Bytes are read with as many line feeds as there are. -/
theorem count_map_ofByte (bytes : List UInt8) : (bytes.map ofByte).count '\n' = bytes.count 10 := by
  rw [List.count_eq_countP, List.countP_map, List.count_eq_countP]
  congr 1
  funext byte
  simp [ofByte_eq_lineFeed_iff]

end ByteText
end ObjectWrapper
