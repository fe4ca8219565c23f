import StaticLink.Bytes

/-!
# The module header

Every module opens with four magic bytes and a version word.
-/

namespace StaticLink.Header

def magic : Bytes := [0x00, 0x61, 0x73, 0x6d]

def version : UInt32 := 1

/-- The bytes that open a module. -/
def encode : Bytes := magic ++ littleEndian 4 version.toNat

end StaticLink.Header
