/-!
# Text as bytes

Files hold text in UTF-8; bytes that are no such text are refused as a whole. A text is read back
from its bytes (`decodeUtf8?_encodeUtf8`).
-/

namespace QuantClassifier.Text

/-- The text that some bytes hold, if they are well formed UTF-8. -/
def decodeUtf8? (bytes : List UInt8) : Option String := String.fromUTF8? ⟨bytes.toArray⟩

/-- The bytes of a text. -/
def encodeUtf8 (text : String) : List UInt8 := text.toUTF8.toList

theorem toList_loop_eq (bytes : ByteArray) (i : Nat) (front : List UInt8) :
    ByteArray.toList.loop bytes i front = front.reverse ++ bytes.data.toList.drop i := by
  have hsize : bytes.data.toList.length = bytes.size := rfl
  fun_induction ByteArray.toList.loop bytes i front with
  | case1 i front hlt ih =>
    have hdrop : bytes.data.toList.drop i = bytes.get! i :: bytes.data.toList.drop (i + 1) := by
      rw [List.drop_eq_getElem_cons (hsize ▸ hlt)]
      exact congrArg (· :: _) (getElem!_pos bytes.data i hlt).symm
    rw [ih, hdrop, List.reverse_cons, List.append_assoc]
    rfl
  | case2 i front hle =>
    rw [List.drop_of_length_le (by omega), List.append_nil]

/-- A text is read back from its bytes. -/
theorem decodeUtf8?_encodeUtf8 (text : String) : decodeUtf8? (encodeUtf8 text) = some text := by
  have hbytes : (⟨(encodeUtf8 text).toArray⟩ : ByteArray) = text.toByteArray := by
    rw [encodeUtf8, ByteArray.toList, toList_loop_eq]
    rfl
  rw [decodeUtf8?, hbytes]
  exact dif_pos text.isValidUTF8

end QuantClassifier.Text
