import StaticLink.Program

/-!
# The interface of the linked module

* `Program.exports`: what the linked module exports. Every name is exported once.
* `Program.start`: the function that runs on instantiation.
* `Program.functionNames`: the names of functions, for debuggers.
* `Program.interface`: as much of this as the options ask for.
-/

namespace StaticLink

/-- The name of the memory in the linked module's exports. -/
def memoryName : String := "memory"

/-- The name of the function that runs the program, exported whenever it is defined. -/
def entryPointName : String := "_start"

/-- What the linked module shows to its surroundings. -/
structure Interface where
  /-- The exported names, each with its kind and index. -/
  exports : List (String × ExternalKind × Nat)
  /-- The index of the function that runs on instantiation. -/
  start : Option Nat
  /-- The names of functions by ascending index, if they are wanted. -/
  functionNames : Option (List (UInt32 × String))
deriving DecidableEq, Repr

namespace Program

/-! ## Exports -/

/-- The function called `name`, if it has a body of its own. -/
def definedFunction? (program : Program) (name : String) : Option SymbolId :=
  (program.symbols.lookup name).filter fun id =>
    (program.symbols.records[id]?).any (·.target.hasOwnBody)

/-- The export of the function `id` under `name`. -/
def functionExport (program : Program) (name : String) (id : SymbolId) :
    Except Error (String × ExternalKind × Nat) := do
  return (name, .function, ← program.functionIndex id)

/-- The export of the entry point, if it is defined. -/
def entryPointExports (program : Program) : Except Error (List (String × ExternalKind × Nat)) :=
  (program.definedFunction? entryPointName).toList.mapM (program.functionExport entryPointName)

/-- The functions and globals that inputs ask to be exported. Data is not exported. -/
def flaggedSymbols (program : Program) : List (SymbolId × Symbol) :=
  program.symbols.symbols.filter fun (_, symbol) =>
    symbol.isExported && !symbol.isUndefined && symbol.target.kind != .data

/-- The exports that inputs ask for. -/
def flaggedExports (program : Program) : Except Error (List (String × ExternalKind × Nat)) :=
  program.flaggedSymbols.mapM fun (id, symbol) => do
    if symbol.target.kind = .global then
      return (symbol.name, .global, ← program.globalIndex id)
    else program.functionExport symbol.name id

/-- The exports of the functions called `names`, which must be defined. -/
def requestedExports (program : Program) (names : List String) :
    Except Error (List (String × ExternalKind × Nat)) :=
  names.mapM fun name =>
    match program.definedFunction? name with
    | some id => program.functionExport name id
    | none => throw (.exportNotFound name)

/-- The memory, the entry point, what the inputs ask for and the functions called `names`. A name
that comes up more than once is exported for its first reason. -/
def exports (program : Program) (names : List String) :
    Except Error (List (String × ExternalKind × Nat)) := do
  let entryPoint ← program.entryPointExports
  let flagged ← program.flaggedExports
  let requested ← program.requestedExports names
  return firstOfKeys ((memoryName, .memory, 0) :: entryPoint ++ flagged ++ requested)

/-! ## Start and names -/

/-- The index of the entry point, if an input defines it strongly. -/
def start (program : Program) : Except Error (Option Nat) := do
  match program.symbols.lookup entryPointName with
  | none => return none
  | some id =>
    let symbol ← program.symbols.get id
    match symbol.target, symbol.isWeak with
    | .function (.defined _ _), false => return some (← program.functionIndex id)
    | _, _ => return none

/-- The names of the functions that the linker supplies. -/
def syntheticNames (program : Program) : Except Error (List (UInt32 × String)) :=
  program.symbols.syntheticFunctions.mapM fun id => do
    let symbol ← program.symbols.get id
    return (UInt32.ofNat (← program.functionIndex id), symbol.name)

/-- The names that input `owner` gives to the functions that it defines. Imported functions are
named by whatever defines them. -/
def inputNames (program : Program) (owner : ModuleId) (module : ObjectModule) :
    Except Error (List (UInt32 × String)) :=
  let imports := module.functionImports.size
  (module.functionNames.toList.filter fun (index, _) => imports ≤ index.toNat).mapM
    fun (index, name) => do
      return (.ofNat (← inWord (program.functionBase owner + (index.toNat - imports))), name)

/-- The names of functions by ascending index. A function has the first name that it was given. -/
def functionNames (program : Program) : Except Error (List (UInt32 × String)) := do
  let synthetic ← program.syntheticNames
  let named ← program.modules.zipIdx.mapM fun (module, owner) => program.inputNames owner module
  return firstOfKeys
    ((synthetic ++ named.flatten).mergeSort fun first second => decide (first.1 ≤ second.1))

/-- What the linked module shows to its surroundings under some options. -/
def interface (program : Program) (options : Options) : Except Error Interface := do
  let exports ← program.exports options.exports
  let start ← if options.emitStart then program.start else pure none
  let functionNames ← if options.debugNames then some <$> program.functionNames else pure none
  return { exports, start, functionNames }

end Program

end StaticLink
