import StaticLink.Entity
import StaticLink.Error
import StaticLink.Header
import StaticLink.SectionId
import StaticLink.Text

/-!
# Writing a module

The size of a section stands before its contents and is not known until they are written.
`Writer.openSize` puts a size field of fixed width in its place, and `Writer.closeSize` fills it
with the count of bytes written since.
-/

namespace StaticLink

/-- A module that is being written. -/
structure Writer where
  bytes : Bytes
deriving DecidableEq, Repr

/-- The position of a size field that awaits its value. -/
structure SizeField where
  offset : Nat
deriving DecidableEq, Repr

namespace Writer

def empty : Writer := ⟨[]⟩

/-- Number of bytes written so far. -/
def size (writer : Writer) : Nat := writer.bytes.length

def append (writer : Writer) (bytes : Bytes) : Writer := ⟨writer.bytes ++ bytes⟩

/-- Writes a size field. -/
def openSize (writer : Writer) : SizeField × Writer :=
  (⟨writer.size⟩, writer.append (Leb128.paddedUInt32 0))

/-- Fills a size field with the count of bytes that follow it. -/
def closeSize (writer : Writer) (field : SizeField) : Except Error Writer :=
  let start := field.offset + Leb128.paddedWidth32
  let size := writer.size - start
  if size < wordLimit then
    .ok ⟨writer.bytes.take field.offset ++ Leb128.paddedUInt32 (UInt32.ofNat size) ++
      writer.bytes.drop start⟩
  else .error (.unsupported .sectionTooLarge)

/-- Opens a section. Its contents are what is written until its size field is filled. -/
def openSection (writer : Writer) (id : SectionId) : SizeField × Writer :=
  (writer.append [id.toByte]).openSize

/-- Opens the custom section called `name`. -/
def openCustomSection (writer : Writer) (name : String) : SizeField × Writer :=
  let (field, writer) := writer.openSection .custom
  (field, writer.append (Text.encode name))

/-- Writes a section with these contents. -/
def addSection (writer : Writer) (id : SectionId) (contents : Bytes) : Except Error Writer :=
  let (field, writer) := writer.openSection id
  (writer.append contents).closeSize field

/-- Writes a section of `count` entries, or nothing when there are none. Nothing can then be wrong
with the entries. -/
def addVector (writer : Writer) (id : SectionId) (count : UInt32)
    (entries : Except Error Bytes) : Except Error Writer := do
  if count = 0 then
    return writer
  writer.addSection id (Leb128.ofUInt32 count ++ (← entries))

theorem size_append (writer : Writer) (bytes : Bytes) :
    (writer.append bytes).size = writer.size + bytes.length := by
  simp [append, size]

/-- A size field that opens `contents` is filled with their length. -/
theorem closeSize_append (writer : Writer) (contents : Bytes) (field : SizeField)
    (opened : Writer) (reserved : writer.openSize = (field, opened))
    (small : contents.length < wordLimit) :
    (opened.append contents).closeSize field =
      .ok (writer.append
        (Leb128.paddedUInt32 (UInt32.ofNat contents.length) ++ contents)) := by
  obtain ⟨rfl, rfl⟩ := Prod.mk.inj reserved
  have written : ((writer.append (Leb128.paddedUInt32 0)).append contents).size -
      (writer.size + Leb128.paddedWidth32) = contents.length := by
    simp only [size_append, Leb128.length_paddedUInt32]
    omega
  have before : ((writer.append (Leb128.paddedUInt32 0)).append contents).bytes.take writer.size =
      writer.bytes := by
    simp [append, size]
  have after : ((writer.append (Leb128.paddedUInt32 0)).append contents).bytes.drop
      (writer.size + Leb128.paddedWidth32) = contents := by
    simp only [append]
    exact List.drop_left' (by simp [size])
  simp only [closeSize, written, before, after, small, if_true]
  simp [append]

end Writer

end StaticLink
