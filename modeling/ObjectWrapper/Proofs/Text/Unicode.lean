import ObjectWrapper.Text.Unicode

namespace ObjectWrapper
namespace Unicode

/-!
# Unicode text and its bytes

Text is read again from the bytes it is written as, so different texts have different bytes.
-/

theorem encode_append (first second : String) :
    encode (first ++ second) = encode first ++ encode second := by
  rw [encode, String.toList_append, List.flatMap_append]
  rfl

/-- The bytes that a text is written as are those that it is kept as. -/
theorem mk_encode (text : String) : (⟨(encode text).toArray⟩ : ByteArray) = text.toByteArray := by
  have kept : text.toByteArray = text.toList.utf8Encode := by
    rw [← String.toByteArray_ofList, String.ofList_toList]
  apply ByteArray.ext
  rw [kept, List.utf8Encode, List.data_toByteArray]
  rfl

theorem toList_toUTF8 (text : String) : text.toUTF8.data.toList = encode text := by
  rw [String.toUTF8_eq_toByteArray, ← mk_encode]

@[simp]
theorem decode?_encode (text : String) : decode? (encode text) = some text := by
  rw [decode?, mk_encode, String.fromUTF8?, dif_pos text.isValidUTF8]
  rfl

theorem encode_injective : Function.Injective encode := by
  intro first second same
  have read := congrArg decode? same
  rw [decode?_encode, decode?_encode] at read
  exact Option.some.inj read

end Unicode
end ObjectWrapper
