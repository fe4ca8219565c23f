import StaticLink.Imports
import StaticLink.Session
import StaticLink.Synthesis

/-!
# Programs

A program is a set of inputs for which everything is decided that has to be known before bytes are
copied: what each symbol is, where static data lies, and what is imported.

* `Program.functionTypes`: the types of the functions of the linked module, by number.
* `Program.ofSession`: decides it, for the inputs of a session.
* `Program.functionBase`, `Program.globalBase`, `Program.elementBase`: the index of the first
  function, global or table entry of an input. In each index space imports come first, then what
  the linker supplies, then the inputs in their order.
* `Program.functionIndex`, `Program.globalIndex`, `Program.dataAddress`: what a symbol becomes.
* `Program.inputFunctionIndex`, `Program.tableSlot`: what an entry of an input's table becomes,
  and where it goes.
-/

namespace StaticLink

/-- The inputs of a link with all that is decided before bytes are copied. -/
structure Program where
  modules : List ObjectModule
  /-- The symbols of the inputs and of the linker. -/
  symbols : SymbolTable
  layout : DataLayout
  stackTop : Nat
  imports : Imports
deriving DecidableEq, Repr

namespace Program

/-! ## Types -/

/-- The number of the first type of input `owner`. -/
def typeBase (program : Program) (owner : ModuleId) : Nat :=
  StaticLink.typeBase program.modules program.symbols owner

def typeCount (program : Program) : Nat := StaticLink.typeCount program.modules program.symbols

/-- The number of the type of a function that the linker supplies. A stub stands in for an import,
and has the type of that import. -/
def syntheticFunctionType (program : Program) (id : SymbolId) : Except Error Nat := do
  match (← program.symbols.get id).target with
  | .function (.synthesized (.trapStub owner position)) =>
    return (← Imports.ofFunction program.modules program.symbols owner position).2
  | _ => return 0

/-- The numbers of the types of all functions that the linked module defines. -/
def functionTypes (program : Program) : Except Error (List Nat) := do
  let synthetic ← program.symbols.syntheticFunctions.mapM program.syntheticFunctionType
  let copied := program.modules.zipIdx.flatMap fun (module, owner) =>
    module.functions.toList.map fun type => program.typeBase owner + type.toNat
  return synthetic ++ (← copied.mapM inWord)

/-! ## All that is decided -/

/-- The program of all inputs of a session, with static data from address `base` on. Every type has
a number that fits in a word. -/
def ofSession (session : Session) (base : Nat) : Except Error Program := do
  let modules := session.modules
  let layout ← DataLayout.ofModules modules base
  let stackTop ← StaticLink.stackTop layout.stop
  let symbols ← session.symbols.complete modules layout stackTop
  let _ ← inWord (StaticLink.typeCount modules symbols)
  let imports ← Imports.ofSymbols modules symbols
  let program : Program := { modules, symbols, layout, stackTop, imports }
  let _ ← program.functionTypes
  return program

/-- The input at position `owner`. -/
def input (program : Program) (owner : ModuleId) : Except Error ObjectModule :=
  inputAt program.modules owner

/-! ## Where each input begins -/

/-- The index of the first function that the linker supplies. -/
def syntheticFunctionBase (program : Program) : Nat := program.imports.functions.length

/-- The index of the first function that input `owner` defines. -/
def functionBase (program : Program) (owner : ModuleId) : Nat :=
  program.syntheticFunctionBase + program.symbols.syntheticFunctions.length +
    countBefore (·.functions.size) program.modules owner

/-- The index of the first global that the linker supplies. -/
def syntheticGlobalBase (program : Program) : Nat := program.imports.globals.length

/-- The index of the first global that input `owner` defines. -/
def globalBase (program : Program) (owner : ModuleId) : Nat :=
  program.syntheticGlobalBase + program.symbols.syntheticGlobals.length +
    countBefore (·.globals.size) program.modules owner

/-- How many table entries come before those of input `owner`. -/
def elementBase (program : Program) (owner : ModuleId) : Nat :=
  countBefore (·.elementCount) program.modules owner

/-- How many table entries the inputs have together. -/
def elementCount (program : Program) : Nat := countAll (·.elementCount) program.modules

/-! ## What symbols become -/

/-- The index or address that `symbol` has, or the error that it has none. -/
def required (symbol : Symbol) (value : Option Nat) : Except Error Nat :=
  match value with
  | some value => .ok value
  | none => .error (.undefinedSymbol symbol.name)

/-- The index of the function that a symbol stands for. -/
def functionIndex (program : Program) (id : SymbolId) : Except Error Nat := do
  let symbol ← program.symbols.get id
  match symbol.target with
  | .function (.defined owner position) =>
    let _ ← program.input owner
    return program.functionBase owner + position.toNat
  | .function (.undefined owner position) =>
    if symbol.isWeak then
      throw (.unresolvedWeakFunction symbol.name)
    let found ← (← program.input owner).functionImport position
    required symbol (program.imports.functionIndex? found.importName)
  | .function (.synthesized _) =>
    let position ← required symbol (program.symbols.syntheticFunctionIndex? id)
    return program.syntheticFunctionBase + position
  | _ => throw (.unsupported (.notOfKind symbol.name .function))

/-- The index of the global that a symbol stands for. A weak global that nothing defines has none,
since it is not imported and nothing stands in for it. -/
def globalIndex (program : Program) (id : SymbolId) : Except Error Nat := do
  let symbol ← program.symbols.get id
  match symbol.target with
  | .global (.defined owner position) =>
    let _ ← program.input owner
    return program.globalBase owner + position.toNat
  | .global (.undefined owner position) =>
    let found ← (← program.input owner).globalImport position
    let index := program.imports.globalIndex? found.importName
    required symbol (if symbol.isWeak then none else index)
  | .global (.synthesized _) =>
    let position ← required symbol (program.symbols.syntheticGlobalIndex? id)
    return program.syntheticGlobalBase + position
  | _ => throw (.unsupported (.notOfKind symbol.name .global))

/-- The address of the data that a symbol stands for. Weak data that nothing defines is at
address zero. -/
def dataAddress (program : Program) (id : SymbolId) : Except Error Nat := do
  let symbol ← program.symbols.get id
  match symbol.target with
  | .data (.defined owner segment offset _) =>
    match program.layout.address? owner segment.toNat with
    | some address => return address + offset.toNat
    | none => throw (.malformed ⟨.invalidSegmentIndex segment, 0⟩)
  | .data .undefined => required symbol (if symbol.isWeak then some 0 else none)
  | .data (.synthesized address) => return address.toNat
  | _ => throw (.unsupported (.notOfKind symbol.name .data))

/-! ## The table -/

/-- The first table slot that is filled. Slot zero stays empty, so that no function has a null
pointer. -/
def firstSlot : Nat := 1

/-- The index of the function that input `owner` knows by `index`, where imports come first. -/
def inputFunctionIndex (program : Program) (owner : ModuleId) (index : UInt32) :
    Except Error Nat := do
  let module ← program.input owner
  let imports := module.functionImports.size
  if imports ≤ index.toNat then
    return ← inWord (program.functionBase owner + (index.toNat - imports))
  let found ← module.functionImport index
  match found.symbol with
  | some symbol => program.functionIndex symbol
  | none => throw (.undefinedSymbol found.field)

/-- Where the entry of `slot` comes among the entries of some segments. Of several segments that
fill the slot, the first one counts. -/
def entryPosition? : (segments : List ElementSegment) → (slot : Nat) → Option Nat
  | [], _ => none
  | segment :: rest, slot =>
    let start := segment.offset.toUInt32.toNat
    if start ≤ slot ∧ slot < start + segment.functions.length then some (slot - start)
    else (entryPosition? rest slot).map (segment.functions.length + ·)

/-- The slot of the linked table that has the entry of `slot` in the table of input `owner`. -/
def tableSlot (program : Program) (owner : ModuleId) (slot : Nat) : Except Error (Option Nat) := do
  let module ← program.input owner
  return (entryPosition? module.elementSegments.toList slot).map
    (firstSlot + program.elementBase owner + ·)

end Program

end StaticLink
