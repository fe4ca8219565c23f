import StaticLink.Error

/-!
# The symbol table

Every non-local name stands for one record in the whole link. References and definitions of a name
are merged into its record; a local symbol has a record of its own, which no name leads to.

* `Symbol.merge`: what becomes of the record of a name when another symbol of that name arrives.
* `SymbolTable.add`, `SymbolTable.addLocal`: registration of a symbol.
* `SymbolTable.lookup`, `SymbolTable.symbols`: the non-local symbols, by name and in order.

A record moves from undefined to defined or synthesized and never back. A weak definition gives way
to a strong one; among weak definitions the first is kept; two strong definitions are an error.
-/

namespace StaticLink

/-- What becomes of the record of a name when another symbol of that name arrives. -/
inductive Merge
  | keep
  /-- The record stays, and is no longer weak. -/
  | strengthen
  | replace
deriving DecidableEq, Repr

namespace Symbol

/-- What becomes of `existing` when `incoming` arrives under the same name. -/
def merge (existing incoming : Symbol) : Except Error Merge :=
  if existing.target.kind ≠ incoming.target.kind then
    .error (.kindMismatch incoming.name existing.context existing.target.kind incoming.context
      incoming.target.kind)
  else if incoming.isUndefined then
    -- A stub must not stand in for a strong reference.
    if existing.isUndefined && existing.isWeak && !incoming.isWeak then .ok .strengthen
    else .ok .keep
  else if existing.isUndefined then .ok .replace
  else if incoming.isWeak || existing.target == incoming.target then .ok .keep
  else if existing.isWeak then .ok .replace
  else .error (.symbolConflict incoming.name existing.context incoming.context)

/-- The symbol without its weak flag. -/
def strengthened (symbol : Symbol) : Symbol :=
  { symbol with flags := symbol.flags.without .weak }

end Symbol

/-- All symbols of a link. -/
structure SymbolTable where
  /-- Every symbol, local ones included, at the position of its id. -/
  records : Array Symbol := #[]
  /-- The non-local names with their symbols, in the order in which they were first seen. -/
  names : Array (String × SymbolId) := #[]
  /-- The functions that the linker supplies, in output order. -/
  syntheticFunctions : List SymbolId := []
  /-- The globals that the linker supplies, in output order. -/
  syntheticGlobals : List SymbolId := []
  /-- The data symbols that the linker supplies. -/
  syntheticData : List SymbolId := []
deriving DecidableEq, Repr

namespace SymbolTable

def empty : SymbolTable := {}

/-- The non-local symbol called `name`. -/
def lookup (table : SymbolTable) (name : String) : Option SymbolId :=
  (table.names.find? (·.1 == name)).map (·.2)

/-- The record of a symbol. -/
def get (table : SymbolTable) (id : SymbolId) : Except Error Symbol :=
  existing table.records[id]?

/-- The non-local symbols, in the order in which their names were first seen. -/
def symbols (table : SymbolTable) : List (SymbolId × Symbol) :=
  table.names.toList.filterMap fun (_, id) => table.records[id]?.map (id, ·)

/-- Position of a synthesized function among the synthesized functions. -/
def syntheticFunctionIndex? (table : SymbolTable) (id : SymbolId) : Option Nat :=
  table.syntheticFunctions.idxOf? id

/-- Position of a synthesized global among the synthesized globals. -/
def syntheticGlobalIndex? (table : SymbolTable) (id : SymbolId) : Option Nat :=
  table.syntheticGlobals.idxOf? id

/-! ## Registration -/

/-- Puts `id` at the end of the list of synthesized symbols where `target` belongs, if anywhere,
and takes it off the lists where it was. -/
def listSynthetic (table : SymbolTable) (id : SymbolId) (target : Target) : SymbolTable :=
  let functions := table.syntheticFunctions.erase id
  let globals := table.syntheticGlobals.erase id
  let data := table.syntheticData.erase id
  let table := { table with
    syntheticFunctions := functions, syntheticGlobals := globals, syntheticData := data }
  match target with
  | .function (.synthesized _) => { table with syntheticFunctions := functions ++ [id] }
  | .global (.synthesized _) => { table with syntheticGlobals := globals ++ [id] }
  | .data (.synthesized _) => { table with syntheticData := data ++ [id] }
  | _ => table

/-- The table with a new record, and the id of that record. -/
def allocate (table : SymbolTable) (symbol : Symbol) : SymbolId × SymbolTable :=
  let id := table.records.size
  (id, { table with records := table.records.push symbol }.listSynthetic id symbol.target)

/-- Registers a symbol that is private to its input. -/
def addLocal (table : SymbolTable) (symbol : Symbol) : SymbolId × SymbolTable :=
  table.allocate symbol

/-- Puts `symbol` in the place of the record of `id`. -/
def replace (table : SymbolTable) (id : SymbolId) (symbol : Symbol) : SymbolTable :=
  { table with records := table.records.setIfInBounds id symbol }

/-- Registers a non-local symbol, and says which record stands for its name. -/
def add (table : SymbolTable) (symbol : Symbol) : Except Error (SymbolId × SymbolTable) := do
  match table.lookup symbol.name with
  | none =>
    let (id, table) := table.allocate symbol
    return (id, { table with names := table.names.push (symbol.name, id) })
  | some id =>
    let existing ← table.get id
    match ← existing.merge symbol with
    | .keep => return (id, table)
    | .strengthen => return (id, table.replace id existing.strengthened)
    | .replace => return (id, (table.replace id symbol).listSynthetic id symbol.target)

end SymbolTable

end StaticLink
