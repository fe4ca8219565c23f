/-!
# Opcodes

The instructions that the linker reads in constant expressions or writes itself.
-/

namespace StaticLink.Opcode

@[match_pattern] def unreachable : UInt8 := 0x00
@[match_pattern] def endExpression : UInt8 := 0x0b
@[match_pattern] def call : UInt8 := 0x10
@[match_pattern] def globalGet : UInt8 := 0x23
@[match_pattern] def i32Const : UInt8 := 0x41
@[match_pattern] def i64Const : UInt8 := 0x42
@[match_pattern] def f32Const : UInt8 := 0x43
@[match_pattern] def f64Const : UInt8 := 0x44
@[match_pattern] def refNull : UInt8 := 0xd0
@[match_pattern] def refFunc : UInt8 := 0xd2

end StaticLink.Opcode
