import StaticLink.FirstOfKeys
import StaticLink.Numbering

/-!
# Imports

The linked module imports what strong references ask for and nothing defines. Several references
to one `ImportName` share an import, which has the type that the first of them gives it.

* `SymbolTable.strongFunctions`, `SymbolTable.strongGlobals`: the references that remain.
* `Imports.ofSymbols`: the imports in the order of their indices.
-/

namespace StaticLink

/-- What an import is known by. -/
structure ImportName where
  module : String
  field : String
deriving DecidableEq, Repr

def FunctionImport.importName (found : FunctionImport) : ImportName := ⟨found.module, found.field⟩

def GlobalImport.importName (found : GlobalImport) : ImportName := ⟨found.module, found.field⟩

namespace SymbolTable

/-- The function imports that stand behind strong references that nothing satisfies. -/
def strongFunctions (table : SymbolTable) : List (ModuleId × UInt32) :=
  (table.symbols.filter fun (_, symbol) => !symbol.isWeak).filterMap fun (_, symbol) =>
    symbol.functionImport?

/-- The global imports that stand behind strong references that nothing satisfies. -/
def strongGlobals (table : SymbolTable) : List (ModuleId × UInt32) :=
  (table.symbols.filter fun (_, symbol) => !symbol.isWeak).filterMap fun (_, symbol) =>
    symbol.globalImport?

end SymbolTable

/-- What the linked module imports, in the order of its indices. -/
structure Imports where
  /-- Each function with the number of its type. -/
  functions : List (ImportName × Nat)
  globals : List (ImportName × GlobalType)
deriving DecidableEq, Repr

namespace Imports

/-- The import of a function of input `owner`, with the number of its type in the linked module. -/
def ofFunction (modules : List ObjectModule) (symbols : SymbolTable) (owner : ModuleId)
    (position : UInt32) : Except Error (ImportName × Nat) := do
  let found ← (← inputAt modules owner).functionImport position
  return (found.importName, ← inWord (typeBase modules symbols owner + found.typeIndex.toNat))

/-- The import of a global of input `owner`. -/
def ofGlobal (modules : List ObjectModule) (owner : ModuleId) (position : UInt32) :
    Except Error (ImportName × GlobalType) := do
  let found ← (← inputAt modules owner).globalImport position
  return (found.importName, found.type)

/-- The imports that remain when the symbol table is complete. -/
def ofSymbols (modules : List ObjectModule) (symbols : SymbolTable) : Except Error Imports := do
  let functions ← symbols.strongFunctions.mapM fun (owner, position) =>
    ofFunction modules symbols owner position
  let globals ← symbols.strongGlobals.mapM fun (owner, position) =>
    ofGlobal modules owner position
  return { functions := firstOfKeys functions, globals := firstOfKeys globals }

/-- The index of an imported function. -/
def functionIndex? (imports : Imports) (name : ImportName) : Option Nat :=
  positionOfKey? imports.functions name

/-- The index of an imported global. -/
def globalIndex? (imports : Imports) (name : ImportName) : Option Nat :=
  positionOfKey? imports.globals name

end Imports

end StaticLink
