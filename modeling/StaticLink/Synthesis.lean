import StaticLink.DataLayout
import StaticLink.Symbol.Table

/-!
# Symbols that the linker supplies

After the last input, and before anything is written, the linker adds symbols of its own to the
table. They come under the names that inputs refer to them by, and are merged like any others.

* `SymbolTable.supplyFunctions`: the function that calls all initializers, and a stub for each weak
  reference to a function that nothing defines.
* `SymbolTable.supplyData`: where each output segment starts and stops.
* `SymbolTable.supplyGlobals`: the stack pointer.
* `SymbolTable.complete`: all of these. In a completed table no strong reference to data is left.
-/

namespace StaticLink

/-- The name of the function that calls all initializers. -/
def constructorCallerName : String := "__wasm_call_ctors"

/-- The name of the global that points to the top of the stack. -/
def stackPointerName : String := "__stack_pointer"

/-- The name of the data symbol that stands for the whole program. -/
def programHandleName : String := "__dso_handle"

/-- The name of the data symbol at the start of an output segment. -/
def startMarkerName (segment : String) : String := "__start_" ++ segment

/-- The name of the data symbol at the end of an output segment. -/
def stopMarkerName (segment : String) : String := "__stop_" ++ segment

namespace SymbolTable

/-- Registers a symbol of the linker, which is hidden. -/
def supply (table : SymbolTable) (name : String) (flags : SymbolFlags) (target : Target) :
    Except Error SymbolTable := do
  let (_, table) ← table.add
    { name, flags := flags.union .hidden, context := Symbol.linkerContext, target }
  return table

/-! ## Initializers -/

/-- The function that an initializer calls. -/
def initializerFunction (table : SymbolTable) (module : ObjectModule) (entry : Initializer) :
    Except Error SymbolId := do
  let refusal := Error.unsupported (.initializerNotFunction entry.symbol module.name)
  match ← module.slot entry.symbol with
  | .symbol id =>
    if (← table.get id).target.kind = .function then return id else throw refusal
  | _ => throw refusal

/-- The functions that the initializers of all inputs call, in the order of the inputs, with their
priorities. -/
def initializerFunctions (table : SymbolTable) (modules : List ObjectModule) :
    Except Error (List (UInt32 × SymbolId)) :=
  let entries := modules.flatMap fun module => module.initializers.toList.map (module, ·)
  entries.mapM fun (module, entry) => do
    return (entry.priority, ← table.initializerFunction module entry)

/-- The functions by ascending priority. Those of equal priority keep their order. -/
def byPriority (functions : List (UInt32 × SymbolId)) : List SymbolId :=
  (functions.mergeSort fun first second => decide (first.1 ≤ second.1)).map (·.2)

/-! ## References that nothing satisfies -/

/-- The names that are only weakly referred to as functions and that nothing defines, each with the
function import that its first reference is. -/
def weakFunctions (table : SymbolTable) : List (String × ModuleId × UInt32) :=
  (table.symbols.filter fun (_, symbol) => symbol.isWeak).filterMap fun (_, symbol) =>
    symbol.functionImport?.map (symbol.name, ·)

/-- The first strong reference to data that nothing defines. Data cannot be imported. -/
def undefinedData? (table : SymbolTable) : Option Symbol :=
  (table.symbols.map (·.2)).find? fun symbol =>
    symbol.target == .data .undefined && !symbol.isWeak

/-! ## Completion -/

/-- Adds the function that calls all initializers, if there is any or if some input asks for it. -/
def supplyConstructorCaller (table : SymbolTable) (modules : List ObjectModule) :
    Except Error SymbolTable := do
  let functions := byPriority (← table.initializerFunctions modules)
  if functions.isEmpty && (table.lookup constructorCallerName).isNone then
    return table
  table.supply constructorCallerName .empty
    (.function (.synthesized (.constructorCaller functions)))

/-- Adds a stub for each weak reference to a function that nothing defines. -/
def supplyStubs (table : SymbolTable) : Except Error SymbolTable :=
  table.weakFunctions.foldlM
    (fun table (name, owner, position) =>
      table.supply name .weak (.function (.synthesized (.trapStub owner position))))
    table

/-- Adds the functions of the linker. -/
def supplyFunctions (table : SymbolTable) (modules : List ObjectModule) :
    Except Error SymbolTable := do
  (← table.supplyConstructorCaller modules).supplyStubs

/-- Adds a data symbol that stands for `address`. -/
def supplyAddress (table : SymbolTable) (name : String) (address : Nat) :
    Except Error SymbolTable :=
  table.supply name .empty (.data (.synthesized (UInt32.ofNat address)))

/-- Adds the data symbols of the linker. -/
def supplyData (table : SymbolTable) (segments : List OutputSegment) :
    Except Error SymbolTable := do
  let table ← segments.foldlM
    (fun table segment => do
      let table ← table.supplyAddress (startMarkerName segment.name) segment.address
      table.supplyAddress (stopMarkerName segment.name) segment.stop)
    table
  table.supplyAddress programHandleName 0

/-- Adds the globals of the linker. -/
def supplyGlobals (table : SymbolTable) (stackTop : Nat) : Except Error SymbolTable :=
  table.supply stackPointerName .empty (.global (.synthesized (Int32.ofInt stackTop)))

/-- The table with all symbols of the linker. Fails if a strong reference to data is left. -/
def complete (table : SymbolTable) (modules : List ObjectModule) (layout : DataLayout)
    (stackTop : Nat) : Except Error SymbolTable := do
  let table ← table.supplyFunctions modules
  let table ← table.supplyData layout.segments
  let table ← table.supplyGlobals stackTop
  match table.undefinedData? with
  | some symbol => throw (.undefinedSymbol symbol.name)
  | none => return table

end SymbolTable

end StaticLink
