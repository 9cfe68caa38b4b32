/-!
# Text as bytes

The bytes of a text in UTF-8. Bytes that are no UTF-8 are the bytes of no text.
-/

namespace WireSchema.Text

/-- The bytes of a text in UTF-8. -/
def utf8 (text : String) : List UInt8 :=
  text.toByteArray.data.toList

/-- Bytes are read as the text whose bytes they are. -/
theorem fromUTF8?_eq_some_iff {bytes : List UInt8} {text : String} :
    String.fromUTF8? bytes.toByteArray = some text ↔ bytes = utf8 text := by
  rw [String.fromUTF8?]
  refine ⟨fun h => ?_, ?_⟩
  · split at h
    · obtain rfl := Option.some.inj h
      simp [utf8, String.fromUTF8, List.data_toByteArray]
    · cases h
  · rintro rfl
    have hbytes : (utf8 text).toByteArray = text.toByteArray := ByteArray.ext List.data_toByteArray
    rw [hbytes, dif_pos text.isValidUTF8]
    rfl

end WireSchema.Text
