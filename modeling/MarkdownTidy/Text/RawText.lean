import MarkdownTidy.Text.Utf8

namespace MarkdownTidy

/-- A text as the system hands it over: bytes, which need not be UTF-8. -/
structure RawText where
  bytes : List UInt8
  deriving DecidableEq

namespace RawText

def ofText (text : String) : RawText :=
  ⟨text.toUTF8.data.toList⟩

instance : Coe String RawText :=
  ⟨ofText⟩

/-- The text, if the bytes are UTF-8. -/
def text? (raw : RawText) : Option String :=
  String.fromUTF8? raw.bytes.toByteArray

/-- What is shown of a text. Bytes that are not UTF-8 are replaced. -/
def display (raw : RawText) : String :=
  String.ofList (Utf8.lossy raw.bytes)

/-- The bytes with a text behind them. -/
def extend (raw : RawText) (suffix : String) : RawText :=
  ⟨raw.bytes ++ (ofText suffix).bytes⟩

variable {raw : RawText} {text : String}

theorem toByteArray_ofText (text : String) : (ofText text).bytes.toByteArray = text.toUTF8 := by
  apply ByteArray.ext
  rw [List.data_toByteArray]
  rfl

theorem ofText_extend (text suffix : String) : (ofText text).extend suffix = ofText (text ++ suffix) := by
  have whole : (text ++ suffix).toUTF8 = text.toUTF8 ++ suffix.toUTF8 := String.toByteArray_append
  rw [extend, ofText, ofText, ofText, whole, ByteArray.data_append, Array.toList_append]

theorem text?_ofText (text : String) : (ofText text).text? = some text := by
  rw [text?, toByteArray_ofText, String.fromUTF8?]
  exact dif_pos text.isValidUTF8

theorem text?_eq_some_iff : raw.text? = some text ↔ raw = ofText text := by
  constructor
  · intro spelled
    unfold text? String.fromUTF8? at spelled
    split at spelled
    · cases spelled
      exact congrArg mk List.toList_data_toByteArray.symm
    · contradiction
  · rintro rfl
    exact text?_ofText text

/-- A text is shown as it is. -/
theorem display_ofText (text : String) : (ofText text).display = text := by
  have bytes : (ofText text).bytes = text.toList.flatMap String.utf8EncodeChar := by
    change text.toByteArray.data.toList = _
    rw [← String.utf8Encode_toList, List.utf8Encode, List.toList_data_toByteArray]
  rw [display, bytes, Utf8.lossy_utf8EncodeChar, String.ofList_toList]

end RawText

/-- A path in the file system, or one of the names on it. -/
abbrev Path := RawText

end MarkdownTidy
