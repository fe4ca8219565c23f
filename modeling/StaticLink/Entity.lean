import StaticLink.Leb128

/-!
# Imported, exported and defined entities

* `ExternalKind`: what an import or an export is.
* `ValueType`, `GlobalType`: the types of globals.
* `Limits`: the sizes that a table or a memory may have.

Each has its `encode`, the bytes that stand for it in a module.
-/

namespace StaticLink

/-- What an import or an export is. -/
inductive ExternalKind
  | function
  | table
  | memory
  | global
  | tag
deriving DecidableEq, Repr

namespace ExternalKind

def toByte : ExternalKind → UInt8
  | function => 0
  | table => 1
  | memory => 2
  | global => 3
  | tag => 4

def ofByte (byte : UInt8) : Except Defect ExternalKind :=
  match byte with
  | 0 => .ok function
  | 1 => .ok table
  | 2 => .ok memory
  | 3 => .ok global
  | 4 => .ok tag
  | _ => .error (.invalidExternalKind byte)

@[simp] theorem ofByte_toByte (kind : ExternalKind) : ofByte kind.toByte = .ok kind := by
  cases kind <;> rfl

end ExternalKind

/-- The number types that a global may hold. -/
inductive ValueType
  | i32
  | i64
  | f32
  | f64
deriving DecidableEq, Repr

namespace ValueType

def toByte : ValueType → UInt8
  | i32 => 0x7f
  | i64 => 0x7e
  | f32 => 0x7d
  | f64 => 0x7c

def ofByte (byte : UInt8) : Except Defect ValueType :=
  match byte with
  | 0x7f => .ok i32
  | 0x7e => .ok i64
  | 0x7d => .ok f32
  | 0x7c => .ok f64
  | _ => .error (.invalidValueType byte)

@[simp] theorem ofByte_toByte (type : ValueType) : ofByte type.toByte = .ok type := by
  cases type <;> rfl

end ValueType

/-- The type of a global. -/
structure GlobalType where
  content : ValueType
  mutable : Bool
deriving DecidableEq, Repr

namespace GlobalType

def encode (type : GlobalType) : Bytes :=
  [type.content.toByte, if type.mutable then 1 else 0]

end GlobalType

/-- The sizes of a table, in slots, or of a memory, in pages. -/
structure Limits where
  initial : UInt32
  maximum : Option UInt32
  shared : Bool
deriving DecidableEq, Repr

namespace Limits

/-- Bit 0 says that there is a maximum, bit 1 that the memory is shared. -/
def flags (limits : Limits) : UInt8 :=
  (if limits.maximum.isSome then 1 else 0) ||| (if limits.shared then 2 else 0)

def encode (limits : Limits) : Bytes :=
  limits.flags :: Leb128.ofUInt32 limits.initial ++
    limits.maximum.elim [] Leb128.ofUInt32

/-- The element type of a table of function references. -/
def functionReference : UInt8 := 0x70

/-- The type of a table of function references. -/
def encodeTable (limits : Limits) : Bytes := functionReference :: limits.encode

end Limits

end StaticLink
