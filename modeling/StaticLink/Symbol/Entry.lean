import StaticLink.Defect
import StaticLink.Symbol.Flags

/-!
# Entries of a module's symbol table

What one input says about one symbol, before it is resolved against the other inputs.
-/

namespace StaticLink

/-- Where a data symbol lies within its input. -/
structure DataDefinition where
  segment : UInt32
  offset : UInt32
  size : UInt32
deriving DecidableEq, Repr

/-- An entry of a module's symbol table. Indices count the imports first. -/
inductive SymbolEntry
  | function (flags : SymbolFlags) (index : UInt32) (name : Option String)
  | data (flags : SymbolFlags) (name : String) (definition : Option DataDefinition)
  | global (flags : SymbolFlags) (index : UInt32) (name : Option String)
  /-- A section as a whole, by its position in the module. -/
  | wholeSection (flags : SymbolFlags) (position : UInt32)
  | event (flags : SymbolFlags) (index : UInt32) (name : Option String)
  | table (flags : SymbolFlags) (index : UInt32) (name : Option String)
deriving DecidableEq, Repr

namespace SymbolEntry

/-- What an entry is about. -/
inductive Kind
  | function
  | data
  | global
  | wholeSection
  | event
  | table
deriving DecidableEq, Repr

namespace Kind

def toByte : Kind → UInt8
  | function => 0
  | data => 1
  | global => 2
  | wholeSection => 3
  | event => 4
  | table => 5

def ofByte (byte : UInt8) : Except Defect Kind :=
  match byte with
  | 0 => .ok function
  | 1 => .ok data
  | 2 => .ok global
  | 3 => .ok wholeSection
  | 4 => .ok event
  | 5 => .ok table
  | _ => .error (.invalidSymbolKind byte)

@[simp] theorem ofByte_toByte (kind : Kind) : ofByte kind.toByte = .ok kind := by
  cases kind <;> rfl

end Kind

def flags : SymbolEntry → SymbolFlags
  | function flags _ _ | data flags _ _ | global flags _ _ | wholeSection flags _
  | event flags _ _ | table flags _ _ => flags

end SymbolEntry

end StaticLink
