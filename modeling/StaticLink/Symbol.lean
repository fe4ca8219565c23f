import StaticLink.Symbol.Flags

/-!
# Symbols

A symbol is a named function, global or data object. Its `Target` says which one: something that
an input defines, something that an input only refers to, or something that the linker supplies.
-/

namespace StaticLink

/-- Position of an input in the order in which the inputs were added. -/
abbrev ModuleId := Nat

/-- Position of a symbol in the order in which the symbols were registered. -/
abbrev SymbolId := Nat

/-- A function that the linker supplies. -/
inductive SyntheticFunction
  /-- Calls every initializer, in this order. -/
  | constructorCaller (initializers : List SymbolId)
  /-- Traps, in place of the missing function import `position` of `owner`. -/
  | trapStub (owner : ModuleId) (position : UInt32)
deriving DecidableEq, Repr

inductive FunctionTarget
  /-- The function at `position` among those that `owner` defines. -/
  | defined (owner : ModuleId) (position : UInt32)
  /-- The function at `position` among those that `owner` imports. -/
  | undefined (owner : ModuleId) (position : UInt32)
  | synthesized (function : SyntheticFunction)
deriving DecidableEq, Repr

inductive GlobalTarget
  /-- The global at `position` among those that `owner` defines. -/
  | defined (owner : ModuleId) (position : UInt32)
  /-- The global at `position` among those that `owner` imports. -/
  | undefined (owner : ModuleId) (position : UInt32)
  /-- A mutable global of type `i32`. -/
  | synthesized (initial : Int32)
deriving DecidableEq, Repr

inductive DataTarget
  /-- `size` bytes at `offset` of a data segment of `owner`. -/
  | defined (owner : ModuleId) (segment offset size : UInt32)
  | undefined
  /-- A fixed address. -/
  | synthesized (address : UInt32)
deriving DecidableEq, Repr

/-- What a symbol stands for. -/
inductive Target
  | function (target : FunctionTarget)
  | global (target : GlobalTarget)
  | data (target : DataTarget)
deriving DecidableEq, Repr

namespace Target

/-- What a symbol can be. -/
inductive Kind
  | function
  | global
  | data
deriving DecidableEq, Repr

def kind : Target → Kind
  | function _ => .function
  | global _ => .global
  | data _ => .data

/-- The kind in words. -/
def Kind.word : Kind → String
  | function => "function"
  | global => "global"
  | data => "data"

/-- Whether an input refers to the target and none defines it. -/
def isUndefined : Target → Bool
  | function (.undefined _ _) | global (.undefined _ _) | data .undefined => true
  | _ => false

/-- Whether the linker supplies the target. -/
def isSynthesized : Target → Bool
  | function (.synthesized _) | global (.synthesized _) | data (.synthesized _) => true
  | _ => false

/-- Whether the target is a function with a body of its own: stubs do not count. -/
def hasOwnBody : Target → Bool
  | function (.defined _ _) | function (.synthesized (.constructorCaller _)) => true
  | _ => false

end Target

/-- A named function, global or data object. -/
structure Symbol where
  name : String
  flags : SymbolFlags
  /-- Where the symbol comes from, for messages: the name of an input or `linkerContext`. -/
  context : String
  target : Target
deriving DecidableEq, Repr

namespace Symbol

/-- The context of the symbols that the linker supplies. -/
def linkerContext : String := "_linker"

/-- Whether another definition takes precedence over the symbol. -/
def isWeak (symbol : Symbol) : Bool := symbol.flags.contains .weak

/-- Whether the symbol is not visible outside its own input. -/
def isLocal (symbol : Symbol) : Bool := symbol.flags.contains .localBinding

def isHidden (symbol : Symbol) : Bool := symbol.flags.contains .hidden

def isExported (symbol : Symbol) : Bool := symbol.flags.contains .exported

/-- Whether nothing defines the symbol. -/
def isUndefined (symbol : Symbol) : Bool := symbol.target.isUndefined

/-- The function import that stands behind the symbol, if it is a function that nothing defines. -/
def functionImport? (symbol : Symbol) : Option (ModuleId × UInt32) :=
  match symbol.target with
  | .function (.undefined owner position) => some (owner, position)
  | _ => none

/-- The global import that stands behind the symbol, if it is a global that nothing defines. -/
def globalImport? (symbol : Symbol) : Option (ModuleId × UInt32) :=
  match symbol.target with
  | .global (.undefined owner position) => some (owner, position)
  | _ => none

end Symbol

end StaticLink
