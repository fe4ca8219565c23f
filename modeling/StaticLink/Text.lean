import StaticLink.Leb128

/-!
# Text

Names are stored as their UTF-8 bytes after the count of those bytes.
-/

namespace StaticLink.Text

/-- The UTF-8 bytes of `text`. -/
def utf8 (text : String) : Bytes := text.toUTF8.data.toList

/-- The text whose UTF-8 bytes are `bytes`, if they are well formed. -/
def ofUtf8? (bytes : Bytes) : Option String := String.fromUTF8? ⟨bytes.toArray⟩

/-- The count of the bytes of `text`, then the bytes. -/
def encode (text : String) : Bytes :=
  let bytes := utf8 text
  Leb128.ofUInt32 (UInt32.ofNat bytes.length) ++ bytes

end StaticLink.Text
