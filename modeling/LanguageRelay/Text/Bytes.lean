namespace LanguageRelay

abbrev Bytes := List UInt8

namespace Text

def utf8 (text : String) : Bytes := text.toUTF8.data.toList

def utf8Decode? (bytes : Bytes) : Option String := String.fromUTF8? ⟨bytes.toArray⟩

def ascii (text : String) : Bytes := text.toList.map fun c => c.toNat.toUInt8

theorem utf8Decode?_utf8 (text : String) : utf8Decode? (utf8 text) = some text := by
  have valid : text.toUTF8.IsValidUTF8 := text.isValidUTF8
  have checked := ByteArray.validateUTF8_eq_true_iff.2 valid
  simp only [utf8Decode?, utf8, Array.toArray_toList]
  unfold String.fromUTF8?
  split
  · rfl
  · rename_i refused
    exact absurd checked (by simpa using refused)

theorem utf8_of_utf8Decode? {bytes : Bytes} {text : String}
    (read : utf8Decode? bytes = some text) : utf8 text = bytes := by
  unfold utf8Decode? String.fromUTF8? at read
  split at read
  · cases Option.some.inj read
    simp [utf8, String.fromUTF8, String.toUTF8]
  · cases read

def byteLength (text : String) : Nat := text.utf8ByteSize

end Text
end LanguageRelay
