import StaticLink.Event.Scan
import StaticLink.ObjectModule
import StaticLink.Symbol.Table

/-!
# Loading an object module

`ObjectModule.load` builds a module from the events of a file, and registers its symbols in the
table that it shares with the other inputs.

* `ObjectModule.resolve`: what an entry of the symbol table means, given what was read before it.
* `Loader.note`: what one event adds to the module and to the table.

Loading stops at the first fault. The symbols that were registered before it stay in the table.
-/

namespace StaticLink

/-- What an entry of a module's symbol table means. -/
inductive Meaning
  | named (name : String) (target : Target)
  | unnamed (slot : Slot)
  /-- An exception tag, which cannot be linked. -/
  | tag
deriving DecidableEq, Repr

/-- Position among the defined entities of the entity at `index`, where imports come first. -/
def definedPosition? (imports defined : Nat) (index : UInt32) : Option UInt32 :=
  if imports ≤ index.toNat ∧ index.toNat - imports < defined then
    some (UInt32.ofNat (index.toNat - imports))
  else none

namespace ObjectModule

/-- The name and position of a defined entity, whose entry must name it. The entry is the one at
`entryIndex`, and `invalid` is the defect of an index that is out of bounds. -/
def resolveDefined (imports defined : Nat) (index entryIndex : UInt32) (name : Option String)
    (invalid : Defect) : Except Defect (String × UInt32) :=
  match definedPosition? imports defined index, name with
  | none, _ => .error invalid
  | some _, none => .error (.missingSymbolName entryIndex)
  | some position, some name => .ok (name, position)

/-- What entry `entryIndex` of the symbol table means in `module`, the input at position `owner`,
as far as it has been read. A reference without a name is named after the field of its import. -/
def resolve (module : ObjectModule) (owner : ModuleId) (entryIndex : UInt32)
    (entry : SymbolEntry) : Except Defect Meaning :=
  match entry with
  | .function flags index name =>
    if flags.contains .undefined then
      match module.functionImports[index.toNat]? with
      | some found => .ok (.named (name.getD found.field) (.function (.undefined owner index)))
      | none => .error (.invalidFunctionIndex index)
    else do
      let (name, position) ← resolveDefined module.functionImports.size module.functions.size
        index entryIndex name (.invalidFunctionIndex index)
      return .named name (.function (.defined owner position))
  | .global flags index name =>
    if flags.contains .undefined then
      match module.globalImports[index.toNat]? with
      | some found => .ok (.named (name.getD found.field) (.global (.undefined owner index)))
      | none => .error (.invalidGlobalIndex index)
    else do
      let (name, position) ← resolveDefined module.globalImports.size module.globals.size
        index entryIndex name (.invalidGlobalIndex index)
      return .named name (.global (.defined owner position))
  | .data _ name none => .ok (.named name (.data .undefined))
  | .data _ name (some place) =>
    if place.segment.toNat < module.dataSegments.size then
      .ok (.named name (.data (.defined owner place.segment place.offset place.size)))
    else .error (.invalidSegmentIndex place.segment)
  | .wholeSection _ position => .ok (.unnamed (.wholeSection position))
  | .table _ index _ => .ok (.unnamed (.table index))
  | .event _ _ _ => .ok .tag

/-- The module with the import that `target` refers to standing for symbol `id`. -/
def nameImport (module : ObjectModule) (target : Target) (id : SymbolId) : ObjectModule :=
  match target with
  | .function (.undefined _ position) =>
    { module with
      functionImports := module.functionImports.modify position.toNat fun found =>
        { found with symbol := some id } }
  | .global (.undefined _ position) =>
    { module with
      globalImports := module.globalImports.modify position.toNat fun found =>
        { found with symbol := some id } }
  | _ => module

/-- The module with `info` about the data segment at `index`. -/
def describeSegment (module : ObjectModule) (index : UInt32) (info : SegmentInfo) :
    ObjectModule :=
  { module with
    dataSegments := module.dataSegments.modify index.toNat fun found => { found with info } }

/-- The module with a relocation against the section at `target`. -/
def addRelocation (module : ObjectModule) (target : UInt32) (relocation : Relocation) :
    ObjectModule :=
  { module with
    sections := module.sections.modify target.toNat fun found =>
      { found with relocations := found.relocations.push relocation } }

end ObjectModule

/-- How far the loading of an input has come. -/
structure Loading where
  module : ObjectModule
  symbols : SymbolTable
  /-- Where the contents of the current section start: the offset of faults found in its events. -/
  sectionStart : Nat := 0
deriving DecidableEq, Repr

/-- A step of loading. -/
abbrev Loader := EStateM Error Loading

namespace Loader

/-- Fails with a defect of the current section. -/
def fail {α : Type} (defect : Defect) : Loader α := do
  throw (.malformed ⟨defect, (← get).sectionStart⟩)

/-- Changes the module. -/
def update (change : ObjectModule → ObjectModule) : Loader Unit :=
  modify fun loading => { loading with module := change loading.module }

/-- Registers a symbol with the table. -/
def register (symbol : Symbol) : Loader SymbolId := do
  let loading ← get
  if symbol.isLocal then
    let (id, symbols) := loading.symbols.addLocal symbol
    set { loading with symbols }
    return id
  else
    match loading.symbols.add symbol with
    | .ok (id, symbols) =>
      set { loading with symbols }
      return id
    | .error error => throw error

/-- Resolves an entry of the symbol table and registers what it names. -/
def resolve (owner : ModuleId) (index : UInt32) (entry : SymbolEntry) : Loader Slot := do
  let module := (← get).module
  match module.resolve owner index entry with
  | .error defect => fail defect
  | .ok .tag => throw (.unsupported (.eventSymbol index module.name))
  | .ok (.unnamed slot) => return slot
  | .ok (.named name target) =>
    let id ← register { name, flags := entry.flags, context := module.name, target }
    update (·.nameImport target id)
    return .symbol id

/-- Adds an event of the input at position `owner` to the module. -/
def note (owner : ModuleId) (event : Event) : Loader Unit := do
  match event with
  | .opening header =>
    modify fun loading => { loading with sectionStart := header.range.start }
    update fun m => { m with sections := m.sections.push { header } }
  | .functionImport module field _ typeIndex =>
    let found : FunctionImport := { module, field, typeIndex }
    update fun m => { m with functionImports := m.functionImports.push found }
  | .tableImport module field _ limits =>
    update fun m => { m with tableImports := m.tableImports.push { module, field, limits } }
  | .memoryImport _ _ _ _ => update fun m => { m with memoryImports := m.memoryImports + 1 }
  | .globalImport module field _ type =>
    update fun m => { m with globalImports := m.globalImports.push { module, field, type } }
  | .function _ typeIndex => update fun m => { m with functions := m.functions.push typeIndex }
  | .table _ _ => update fun m => { m with tables := m.tables + 1 }
  | .memory _ _ => return
  | .global _ type => update fun m => { m with globals := m.globals.push type }
  | .exported name kind index =>
    update fun m => { m with exports := m.exports.push { name, kind, index } }
  | .start function => update fun m => { m with start := some function }
  | .elementSegment _ table offset functions =>
    let segment : ElementSegment := { table, offset, functions }
    update fun m => { m with elementSegments := m.elementSegments.push segment }
  | .dataSegment _ memory offset data =>
    update fun m => { m with dataSegments := m.dataSegments.push { memory, offset, data } }
  | .functionName index name =>
    update fun m => { m with functionNames := m.functionNames.push (index, name) }
  | .segmentInfo index name alignment flags =>
    if index.toNat < (← get).module.dataSegments.size then
      update (·.describeSegment index { name, alignment, flags })
    else fail (.invalidSegmentIndex index)
  | .initializer priority symbol =>
    update fun m => { m with initializers := m.initializers.push { priority, symbol } }
  | .symbol index entry =>
    let slot ← resolve owner index entry
    update fun m => { m with slots := m.slots.push slot }
  | .relocation target relocation =>
    if target.toNat < (← get).module.sections.size then
      update (·.addRelocation target relocation)
    else fail (.invalidSectionIndex target)

end Loader

namespace ObjectModule

/-- The module in the file `bytes`, to be stored at position `owner`. Its symbols are registered
in the table. -/
def load (owner : ModuleId) (name : String) (bytes : Bytes) :
    EStateM Error SymbolTable ObjectModule := fun symbols =>
  match (Transcript.ofBytes bytes).forEach (Loader.note owner)
      { module := { name, bytes }, symbols } with
  | .ok _ loading => .ok loading.module loading.symbols
  | .error error loading => .error error loading.symbols

end ObjectModule

end StaticLink
