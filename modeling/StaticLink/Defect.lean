/-!
# Ways in which an input can be malformed

A `Defect` says what is wrong, a `Fault` also says at which position of the input it was found.
-/

namespace StaticLink

/-- What is wrong with a malformed input. -/
inductive Defect
  | unexpectedEnd
  | badMagic
  | unsupportedVersion (version : UInt32)
  | integerTooLong
  | integerTooLarge
  | invalidUtf8
  | invalidSectionCode (byte : UInt8)
  | invalidElementType (byte : UInt8)
  | invalidValueType (byte : UInt8)
  | invalidExternalKind (byte : UInt8)
  | invalidRelocationKind (byte : UInt8)
  | invalidSymbolKind (byte : UInt8)
  | invalidLimits (flags : UInt8)
  | invalidMutability (byte : UInt8)
  | expectedConstant (opcode : UInt8)
  | expectedI32Constant (opcode : UInt8)
  | expectedEnd (byte : UInt8)
  | unsupportedImportKind (byte : UInt8)
  | unsupportedLinkingVersion (version : UInt32)
  | invalidAlignment (exponent : UInt32)
  | unsupportedSegmentFlags (flags : UInt32)
  /-- A section or subsection should end at one position and ends at another. -/
  | sizeMismatch (expected actual : Nat)
  | invalidSectionIndex (index : UInt32)
  | invalidSegmentIndex (index : UInt32)
  | invalidFunctionIndex (index : UInt32)
  | invalidGlobalIndex (index : UInt32)
  | invalidSymbolIndex (index : UInt32)
  | missingSymbolName (index : UInt32)
  | relocationOutOfBounds (offset : UInt32)
deriving DecidableEq, Repr

/-- Digits of `n` in base sixteen, lower case, as few as possible. -/
def hexadecimal (n : Nat) : String := String.ofList (Nat.toDigits 16 n)

/-- Both digits of a byte in base sixteen, lower case. -/
def hexadecimalByte (byte : UInt8) : String :=
  String.ofList [Nat.digitChar (byte.toNat / 16), Nat.digitChar (byte.toNat % 16)]

namespace Defect

/-- The defect in words. -/
def message : Defect → String
  | unexpectedEnd => "unexpected end-of-file"
  | badMagic => "magic header not detected: bad magic number"
  | unsupportedVersion version => "unknown binary version: 0x" ++ hexadecimal version.toNat
  | integerTooLong => "invalid LEB128: integer representation too long"
  | integerTooLarge => "invalid LEB128: integer too large"
  | invalidUtf8 => "malformed UTF-8 encoding"
  | invalidSectionCode byte => s!"invalid section code: {byte}"
  | invalidElementType byte => "invalid element type: 0x" ++ hexadecimalByte byte
  | invalidValueType byte => "invalid value type: 0x" ++ hexadecimalByte byte
  | invalidExternalKind byte => s!"invalid external kind: {byte}"
  | invalidRelocationKind byte => s!"invalid relocation type: {byte}"
  | invalidSymbolKind byte => s!"invalid symbol kind: {byte}"
  | invalidLimits flags => "invalid limits flags: 0x" ++ hexadecimalByte flags
  | invalidMutability byte => "invalid mutability: 0x" ++ hexadecimalByte byte
  | expectedConstant opcode =>
    "expected a constant expression opcode, found 0x" ++ hexadecimalByte opcode
  | expectedI32Constant opcode =>
    "expected i32.const in segment offset, found 0x" ++ hexadecimalByte opcode
  | expectedEnd byte => "expected end opcode, found 0x" ++ hexadecimalByte byte
  | unsupportedImportKind byte => s!"unsupported import kind: {byte}"
  | unsupportedLinkingVersion version => s!"unsupported linking metadata version: {version}"
  | invalidAlignment exponent => s!"invalid segment alignment: 2^{exponent}"
  | unsupportedSegmentFlags flags => s!"unsupported segment flags: {flags}"
  | sizeMismatch expected actual =>
    "section size mismatch: expected end at 0x" ++ hexadecimal expected ++
      ", found 0x" ++ hexadecimal actual
  | invalidSectionIndex index => s!"section index {index} out of bounds"
  | invalidSegmentIndex index => s!"segment index {index} out of bounds"
  | invalidFunctionIndex index => s!"function index {index} out of bounds"
  | invalidGlobalIndex index => s!"global index {index} out of bounds"
  | invalidSymbolIndex index => s!"symbol index {index} out of bounds"
  | missingSymbolName index => s!"symbol {index} is missing a name"
  | relocationOutOfBounds offset =>
    "relocation at offset 0x" ++ hexadecimal offset.toNat ++ " is out of bounds"

end Defect

/-- A defect of an input and the position where it was detected. -/
structure Fault where
  defect : Defect
  offset : Nat
deriving DecidableEq, Repr

namespace Fault

/-- The fault in words. -/
def message (fault : Fault) : String :=
  fault.defect.message ++ " (at offset 0x" ++ hexadecimal fault.offset ++ ")"

end Fault

end StaticLink
