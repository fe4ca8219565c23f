/-!
# Symbol flags

The flag word of a symbol. Bits without a meaning here are kept as they are.
-/

namespace StaticLink

/-- The flags of a symbol, as one word. -/
structure SymbolFlags where
  bits : UInt32
deriving DecidableEq, Repr

namespace SymbolFlags

def empty : SymbolFlags := ⟨0⟩

/-- Another definition takes precedence over this one. -/
def weak : SymbolFlags := ⟨0x1⟩

/-- The symbol is not visible outside its own input. -/
def localBinding : SymbolFlags := ⟨0x2⟩

def hidden : SymbolFlags := ⟨0x4⟩

/-- The input refers to the symbol and does not define it. -/
def undefined : SymbolFlags := ⟨0x10⟩

/-- The linked module exports the symbol. -/
def exported : SymbolFlags := ⟨0x20⟩

/-- The entry of an undefined symbol gives its name, which is else that of its import. -/
def explicitName : SymbolFlags := ⟨0x40⟩

/-- Whether every bit of `other` is set. -/
def contains (flags other : SymbolFlags) : Bool := flags.bits &&& other.bits == other.bits

/-- The bits set in either. -/
def union (flags other : SymbolFlags) : SymbolFlags := ⟨flags.bits ||| other.bits⟩

/-- The bits that are not set in `other`. -/
def without (flags other : SymbolFlags) : SymbolFlags := ⟨flags.bits &&& ~~~other.bits⟩

end SymbolFlags

end StaticLink
