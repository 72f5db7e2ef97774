import RuleOff.Text.Basic

/-!
# Texts as bytes

The UTF-8 form of a text. Reading refuses bytes that are not the form of any text.
-/

namespace RuleOff.Text

def utf8 (t : Text) : List UInt8 := t.flatMap String.utf8EncodeChar

def ofUtf8? (bytes : List UInt8) : Option Text :=
  (List.toByteArray bytes).utf8Decode?.map Array.toList

/-- Reading the bytes of a text gives the text back. -/
theorem ofUtf8?_utf8 (t : Text) : ofUtf8? (utf8 t) = some t := by
  have h := @List.utf8Decode?_utf8Encode t
  simp only [List.utf8Encode] at h
  simp [ofUtf8?, utf8, h]

/-- Bytes that start with those of a character are read as that character and the rest. -/
theorem ofUtf8?_append (c : Char) (bytes : List UInt8) :
    ofUtf8? (String.utf8EncodeChar c ++ bytes) = (ofUtf8? bytes).map (c :: ·) := by
  have h := @ByteArray.utf8Decode?_utf8Encode_singleton_append (List.toByteArray bytes) c
  rw [List.utf8Encode_singleton] at h
  unfold ofUtf8?
  rw [List.toByteArray_append, h, Option.map_map, Option.map_map]
  congr 1
  funext cs
  simp

end RuleOff.Text
