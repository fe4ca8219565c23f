import StaticLink.Leb128

/-!
# Relocations

* `Relocation.Kind`: what the operand stands for, and how it is stored.
* `Relocation.Encoding`: how an operand is stored, with `decode` and `encode`. Both work on
  integers; encoding keeps the low 32 or 64 bits and always takes the width of the encoding, so
  that an operand can be overwritten in place.
* `Relocation`: one entry of a relocation section.
-/

namespace StaticLink

namespace Relocation

/-! ## How an operand is stored -/

/-- How a relocated operand is stored. -/
inductive Encoding
  | uleb32
  | sleb32
  | uleb64
  | sleb64
  | i32
  | i64
deriving DecidableEq, Repr

namespace Encoding

/-- Number of bytes of the operand. -/
def width : Encoding → Nat
  | uleb32 | sleb32 => Leb128.paddedWidth32
  | uleb64 | sleb64 => Leb128.paddedWidth64
  | i32 => 4
  | i64 => 8

/-- The word stored in the first `width` bytes. -/
def decodeWord (width : Nat) (bytes : Bytes) : Except Defect Int :=
  match bytes.splitExactly? width with
  | some (word, _) => .ok (ofLittleEndian word)
  | none => .error .unexpectedEnd

/-- The value of the operand at the start of `bytes`: signed for the signed encodings only. -/
def decode : Encoding → (bytes : Bytes) → Except Defect Int
  | uleb32, bytes => (Leb128.decodeUnsigned 32 bytes).map fun (value, _) => value
  | sleb32, bytes => (Leb128.decodeSigned 32 bytes).map fun (value, _) => value
  | uleb64, bytes => (Leb128.decodeUnsigned 64 bytes).map fun (value, _) => value
  | sleb64, bytes => (Leb128.decodeSigned 64 bytes).map fun (value, _) => value
  | i32, bytes => decodeWord 4 bytes
  | i64, bytes => decodeWord 8 bytes

/-- The low 32 or 64 bits of `value`, in as many bytes as the encoding is wide. -/
def encode : Encoding → (value : Int) → Bytes
  | uleb32, value => Leb128.encodeUnsigned (value % wordLimit).toNat Leb128.paddedWidth32
  | sleb32, value => Leb128.encodeSigned (value.bmod wordLimit) Leb128.paddedWidth32
  | uleb64, value => Leb128.encodeUnsigned (value % longLimit).toNat Leb128.paddedWidth64
  | sleb64, value => Leb128.encodeSigned (value.bmod longLimit) Leb128.paddedWidth64
  | i32, value => littleEndian 4 (value % wordLimit).toNat
  | i64, value => littleEndian 8 (value % longLimit).toNat

@[simp] theorem length_encode (encoding : Encoding) (value : Int) :
    (encoding.encode value).length = encoding.width := by
  cases encoding with
  | uleb32 =>
    refine Leb128.length_encodeUnsigned (by decide) ?_
    have limit : powerOfTwo (7 * Leb128.paddedWidth32) = 34359738368 := rfl
    simp only [limit, wordLimit]
    omega
  | sleb32 =>
    have limit : powerOfTwo (7 * Leb128.paddedWidth32 - 1) = 17179869184 := rfl
    have low : -(wordLimit / 2 : Int) ≤ value.bmod wordLimit := Int.le_bmod (by decide)
    have high : value.bmod wordLimit < (wordLimit + 1) / 2 := Int.bmod_lt (by decide)
    simp only [wordLimit] at low high
    refine Leb128.length_encodeSigned (by decide) ?_ ?_ <;> simp only [limit, wordLimit] <;> omega
  | uleb64 =>
    refine Leb128.length_encodeUnsigned (by decide) ?_
    have limit : powerOfTwo (7 * Leb128.paddedWidth64) = 1180591620717411303424 := rfl
    simp only [limit, longLimit]
    omega
  | sleb64 =>
    have limit : powerOfTwo (7 * Leb128.paddedWidth64 - 1) = 590295810358705651712 := rfl
    have low : -(longLimit / 2 : Int) ≤ value.bmod longLimit := Int.le_bmod (by decide)
    have high : value.bmod longLimit < (longLimit + 1) / 2 := Int.bmod_lt (by decide)
    simp only [longLimit] at low high
    refine Leb128.length_encodeSigned (by decide) ?_ ?_ <;> simp only [limit, longLimit] <;> omega
  | i32 => exact length_littleEndian 4 _
  | i64 => exact length_littleEndian 8 _

end Encoding

/-! ## What an operand stands for -/

/-- What a relocated operand stands for, and how it is stored. -/
inductive Kind
  /-- A function index, as in a direct call. -/
  | functionIndexLeb
  /-- A table slot, as in taking the address of a function. -/
  | tableIndexSleb
  /-- A table slot in static data. -/
  | tableIndexI32
  /-- A memory address, as in the offset of a load. -/
  | memoryAddrLeb
  /-- A memory address, as in a constant. -/
  | memoryAddrSleb
  /-- A memory address in static data. -/
  | memoryAddrI32
  /-- A type index, as in an indirect call. -/
  | typeIndexLeb
  /-- A global index. -/
  | globalIndexLeb
  /-- A position in the code section, for debuggers. -/
  | functionOffsetI32
  /-- A position in some section, for debuggers. -/
  | sectionOffsetI32
  /-- The index of an exception tag. -/
  | eventIndexLeb
  /-- A memory address counted from a movable base. -/
  | memoryAddrRelSleb
  /-- A table slot counted from a movable base. -/
  | tableIndexRelSleb
  /-- A global index in static data. -/
  | globalIndexI32
  | memoryAddrLeb64
  | memoryAddrSleb64
  | memoryAddrI64
  | memoryAddrRelSleb64
  | tableIndexSleb64
  | tableIndexI64
  /-- The number of a table, as in an indirect call. -/
  | tableNumberLeb
deriving DecidableEq, Repr

namespace Kind

def toByte : Kind → UInt8
  | functionIndexLeb => 0
  | tableIndexSleb => 1
  | tableIndexI32 => 2
  | memoryAddrLeb => 3
  | memoryAddrSleb => 4
  | memoryAddrI32 => 5
  | typeIndexLeb => 6
  | globalIndexLeb => 7
  | functionOffsetI32 => 8
  | sectionOffsetI32 => 9
  | eventIndexLeb => 10
  | memoryAddrRelSleb => 11
  | tableIndexRelSleb => 12
  | globalIndexI32 => 13
  | memoryAddrLeb64 => 14
  | memoryAddrSleb64 => 15
  | memoryAddrI64 => 16
  | memoryAddrRelSleb64 => 17
  | tableIndexSleb64 => 18
  | tableIndexI64 => 19
  | tableNumberLeb => 20

def ofByte (byte : UInt8) : Except Defect Kind :=
  match byte with
  | 0 => .ok functionIndexLeb
  | 1 => .ok tableIndexSleb
  | 2 => .ok tableIndexI32
  | 3 => .ok memoryAddrLeb
  | 4 => .ok memoryAddrSleb
  | 5 => .ok memoryAddrI32
  | 6 => .ok typeIndexLeb
  | 7 => .ok globalIndexLeb
  | 8 => .ok functionOffsetI32
  | 9 => .ok sectionOffsetI32
  | 10 => .ok eventIndexLeb
  | 11 => .ok memoryAddrRelSleb
  | 12 => .ok tableIndexRelSleb
  | 13 => .ok globalIndexI32
  | 14 => .ok memoryAddrLeb64
  | 15 => .ok memoryAddrSleb64
  | 16 => .ok memoryAddrI64
  | 17 => .ok memoryAddrRelSleb64
  | 18 => .ok tableIndexSleb64
  | 19 => .ok tableIndexI64
  | 20 => .ok tableNumberLeb
  | _ => .error (.invalidRelocationKind byte)

@[simp] theorem ofByte_toByte (kind : Kind) : ofByte kind.toByte = .ok kind := by
  cases kind <;> rfl

/-- The name of the kind in the conventions of the object format. -/
def name : Kind → String
  | functionIndexLeb => "FunctionIndexLeb"
  | tableIndexSleb => "TableIndexSleb"
  | tableIndexI32 => "TableIndexI32"
  | memoryAddrLeb => "MemoryAddrLeb"
  | memoryAddrSleb => "MemoryAddrSleb"
  | memoryAddrI32 => "MemoryAddrI32"
  | typeIndexLeb => "TypeIndexLeb"
  | globalIndexLeb => "GlobalIndexLeb"
  | functionOffsetI32 => "FunctionOffsetI32"
  | sectionOffsetI32 => "SectionOffsetI32"
  | eventIndexLeb => "EventIndexLeb"
  | memoryAddrRelSleb => "MemoryAddrRelSleb"
  | tableIndexRelSleb => "TableIndexRelSleb"
  | globalIndexI32 => "GlobalIndexI32"
  | memoryAddrLeb64 => "MemoryAddrLeb64"
  | memoryAddrSleb64 => "MemoryAddrSleb64"
  | memoryAddrI64 => "MemoryAddrI64"
  | memoryAddrRelSleb64 => "MemoryAddrRelSleb64"
  | tableIndexSleb64 => "TableIndexSleb64"
  | tableIndexI64 => "TableIndexI64"
  | tableNumberLeb => "TableNumberLeb"

/-- Whether the operand is an address in memory. -/
def isMemoryAddress : Kind → Bool
  | memoryAddrLeb | memoryAddrSleb | memoryAddrI32 | memoryAddrRelSleb | memoryAddrLeb64
  | memoryAddrSleb64 | memoryAddrI64 | memoryAddrRelSleb64 => true
  | _ => false

/-- Whether the operand is a slot of the function table. -/
def isTableIndex : Kind → Bool
  | tableIndexSleb | tableIndexI32 | tableIndexRelSleb | tableIndexSleb64 | tableIndexI64 => true
  | _ => false

/-- Whether an entry carries an addend: for memory addresses and for positions in a section. -/
def hasAddend : Kind → Bool
  | functionOffsetI32 | sectionOffsetI32 => true
  | kind => kind.isMemoryAddress

/-- How the operand is stored. -/
def encoding : Kind → Encoding
  | functionIndexLeb | memoryAddrLeb | typeIndexLeb | globalIndexLeb | eventIndexLeb
  | tableNumberLeb => .uleb32
  | tableIndexSleb | memoryAddrSleb | memoryAddrRelSleb | tableIndexRelSleb => .sleb32
  | memoryAddrLeb64 => .uleb64
  | memoryAddrSleb64 | memoryAddrRelSleb64 | tableIndexSleb64 => .sleb64
  | tableIndexI32 | memoryAddrI32 | functionOffsetI32 | sectionOffsetI32 | globalIndexI32 => .i32
  | memoryAddrI64 | tableIndexI64 => .i64

end Kind

end Relocation

/-- One entry of a relocation section. -/
structure Relocation where
  kind : Relocation.Kind
  /-- Where the operand starts, counted from the start of the section's contents. -/
  offset : UInt32
  /-- A position in the symbol table, or a type index for `Relocation.Kind.typeIndexLeb`. -/
  index : UInt32
  addend : Int64
deriving DecidableEq, Repr

end StaticLink
