import StaticLink.Proofs.Renaming.Loading

/-!
# Programs of inputs under other names

What is decided for the inputs of a link does not depend on their names, apart from the modules and
the records of symbols that have these names in them.

* `Program.rename`: the program where inputs have other names.
* `countAll_rename`: what is counted in modules.
* `DataLayout.renames_ofModules`: static data is laid out without regard to names.
* `SymbolTable.renames_complete`: the linker supplies the same symbols.
* `Program.renames_ofSession`: the same is decided.
-/

namespace StaticLink

/-- The program where inputs have other names. -/
def Program.rename (f : String → String) (program : Program) : Program :=
  { program with
    modules := program.modules.map (ObjectModule.rename f)
    symbols := program.symbols.rename f }

variable {f : String → String}

/-! ## Modules -/

theorem countAll_rename {count : ObjectModule → Nat}
    (same : ∀ module, count (ObjectModule.rename f module) = count module)
    (modules : List ObjectModule) :
    countAll count (modules.map (ObjectModule.rename f)) = countAll count modules := by
  induction modules with
  | nil => rfl
  | cons module rest ih => rw [List.map_cons, countAll, countAll, same, ih]

theorem countBefore_rename {count : ObjectModule → Nat}
    (same : ∀ module, count (ObjectModule.rename f module) = count module)
    (modules : List ObjectModule) (owner : ModuleId) :
    countBefore count (modules.map (ObjectModule.rename f)) owner =
      countBefore count modules owner := by
  rw [countBefore, ← List.map_take, countAll_rename same]
  rfl

theorem renames_inputAt (modules : List ObjectModule) (owner : ModuleId) :
    Renames f (ObjectModule.rename f) (inputAt modules owner)
      (inputAt (modules.map (ObjectModule.rename f)) owner) := by
  unfold inputAt
  rw [List.getElem?_map]
  exact .existing _

/-- What a reference in a module leads to. -/
theorem renames_existing {α : Type} (value : Option α) :
    Renames f id (existing value) (existing value) := by
  cases value <;> rfl

theorem ObjectModule.renames_slot (module : ObjectModule) (index : UInt32) :
    Renames f id (module.slot index) ((module.rename f).slot index) := by
  show Renames f id (module.slot index) (module.slot index)
  unfold slot
  split
  · exact .ok _
  · exact .error _

/-! ## The layout of data -/

theorem renames_fitting {α : Type} (value : Option α) :
    Renames f id (fitting value) (fitting value) := by
  cases value <;> rfl

namespace OutputSegment

theorem renames_push (segment : OutputSegment) (owner : ModuleId) (position : Nat)
    (input : DataSegment) :
    Renames f id (segment.push owner position input) (segment.push owner position input) :=
  (renames_fitting _).bind fun _ => (renames_fitting _).bind fun _ => .pure _

theorem renames_insert (owner : ModuleId) (position : Nat) (input : DataSegment)
    (segments : List OutputSegment) :
    Renames f id (insert owner position input segments) (insert owner position input segments) := by
  induction segments with
  | nil => exact (renames_push _ owner position input).map fun _ => rfl
  | cons segment rest ih =>
    unfold insert
    refine .ite ?_ ?_
    · exact (renames_push segment owner position input).map fun _ => rfl
    · exact ih.map fun _ => rfl

theorem renames_pack (base : Nat) (segments : List OutputSegment) :
    Renames f id (pack base segments) (pack base segments) := by
  induction segments generalizing base with
  | nil => exact .pure _
  | cons segment rest ih =>
    refine (renames_fitting _).bind fun address => ?_
    refine (renames_fitting _).bind fun stop => ?_
    exact (ih stop).bind fun _ => .pure _

end OutputSegment

theorem ObjectModule.renames_checkDataRelocations (module : ObjectModule) :
    Renames f id module.checkDataRelocations (module.rename f).checkDataRelocations := by
  show Renames f id module.checkDataRelocations module.checkDataRelocations
  unfold checkDataRelocations
  split
  · exact .error _
  · exact .ok _

namespace DataLayout

theorem renames_insertModule (segments : List OutputSegment) (module : ObjectModule)
    (owner : ModuleId) :
    Renames f id (insertModule segments module owner)
      (insertModule segments (module.rename f) owner) := by
  refine module.renames_checkDataRelocations.bind fun _ => ?_
  exact .foldlM_items (fun before item _ =>
    OutputSegment.renames_insert owner item.2 item.1 before) segments

theorem renames_merge (modules : List ObjectModule) :
    Renames f id (merge modules) (merge (modules.map (ObjectModule.rename f))) := by
  unfold merge
  rw [List.zipIdx_map]
  exact .foldlM (fun before item _ => renames_insertModule before item.1 item.2) []

theorem renames_ofModules (modules : List ObjectModule) (base : Nat) :
    Renames f id (ofModules modules base)
      (ofModules (modules.map (ObjectModule.rename f)) base) :=
  (renames_merge modules).bind fun _ =>
    (OutputSegment.renames_pack base _).bind fun _ => .pure _

end DataLayout

theorem renames_stackTop (dataStop : Nat) : Renames f id (stackTop dataStop) (stackTop dataStop) :=
  (renames_fitting _).bind fun _ => renames_fitting _

/-! ## The symbols of the linker -/

namespace SymbolTable

variable (table : SymbolTable)

theorem symbols_rename :
    (table.rename f).symbols = table.symbols.map (Prod.map id (Symbol.rename f)) := by
  unfold symbols
  rw [List.map_filterMap]
  refine congrArg (List.filterMap · table.names.toList) (funext fun entry => ?_)
  show Option.map (entry.2, ·) (table.rename f).records[entry.2]? = _
  rw [getElem?_rename, Option.map_map, Option.map_map]
  rfl

/-- What is picked out of the symbols without regard to where they come from. -/
theorem filterMap_symbols_rename {α : Type} {keep : SymbolId × Symbol → Bool}
    {pick : SymbolId × Symbol → Option α}
    (kept : keep ∘ Prod.map id (Symbol.rename f) = keep)
    (picked : pick ∘ Prod.map id (Symbol.rename f) = pick) :
    ((table.rename f).symbols.filter keep).filterMap pick =
      (table.symbols.filter keep).filterMap pick := by
  rw [symbols_rename, List.filter_map, List.filterMap_map, kept, picked]

theorem weakFunctions_rename : (table.rename f).weakFunctions = table.weakFunctions :=
  table.filterMap_symbols_rename rfl rfl

theorem undefinedData?_rename :
    (table.rename f).undefinedData? = table.undefinedData?.map (Symbol.rename f) := by
  have symbols : (table.rename f).symbols.map (·.2) =
      (table.symbols.map (·.2)).map (Symbol.rename f) := by
    rw [symbols_rename, List.map_map, List.map_map]
    rfl
  unfold undefinedData?
  rw [symbols, List.find?_map]
  rfl

theorem renames_initializerFunction (module : ObjectModule) (entry : Initializer) :
    Renames f id (table.initializerFunction module entry)
      ((table.rename f).initializerFunction (module.rename f) entry) := by
  refine (module.renames_slot entry.symbol).bind fun slot => ?_
  cases slot with
  | symbol id => exact (table.renames_get id).bind fun symbol => .ite (.pure id) (.throw _)
  | wholeSection _ => exact .throw _
  | table _ => exact .throw _

theorem renames_initializerFunctions (modules : List ObjectModule) :
    Renames f id (table.initializerFunctions modules)
      ((table.rename f).initializerFunctions (modules.map (ObjectModule.rename f))) := by
  have entries : (modules.map (ObjectModule.rename f)).flatMap
        (fun module => module.initializers.toList.map (module, ·)) =
      (modules.flatMap fun module => module.initializers.toList.map (module, ·)).map
        (Prod.map (ObjectModule.rename f) id) := by
    rw [List.flatMap_map, List.map_flatMap]
    refine congrArg (List.flatMap · modules) (funext fun module => ?_)
    rw [List.map_map]
    rfl
  unfold initializerFunctions
  dsimp only
  rw [entries]
  exact .mapM_id fun item _ => (table.renames_initializerFunction item.1 item.2).map fun _ => rfl

section

-- The symbols of the linker come from no input, and have a context that stays.
variable (fixed : f Symbol.linkerContext = Symbol.linkerContext)
include fixed

theorem renames_supply (name : String) (flags : SymbolFlags) (target : Target) :
    Renames f (SymbolTable.rename f) (table.supply name flags target)
      ((table.rename f).supply name flags target) := by
  let symbol : Symbol :=
    { name, flags := flags.union .hidden, context := Symbol.linkerContext, target }
  have same : symbol.rename f = symbol := congrArg (Symbol.mk name _ · target) fixed
  have added := table.renames_add (f := f) symbol
  rw [same] at added
  exact added.map fun _ => rfl

theorem renames_supplyConstructorCaller (modules : List ObjectModule) :
    Renames f (SymbolTable.rename f) (table.supplyConstructorCaller modules)
      ((table.rename f).supplyConstructorCaller (modules.map (ObjectModule.rename f))) :=
  (table.renames_initializerFunctions modules).bind fun _ =>
    .ite (.pure table) (table.renames_supply fixed _ _ _)

theorem renames_supplyStubs :
    Renames f (SymbolTable.rename f) table.supplyStubs (table.rename f).supplyStubs := by
  unfold supplyStubs
  rw [weakFunctions_rename]
  exact .foldlM_items (fun before _ _ => before.renames_supply fixed _ _ _) table

theorem renames_supplyAddress (name : String) (address : Nat) :
    Renames f (SymbolTable.rename f) (table.supplyAddress name address)
      ((table.rename f).supplyAddress name address) :=
  table.renames_supply fixed name _ _

theorem renames_supplyData (segments : List OutputSegment) :
    Renames f (SymbolTable.rename f) (table.supplyData segments)
      ((table.rename f).supplyData segments) := by
  refine .bind (.foldlM_items (fun before segment _ => ?_) table) fun marked =>
    marked.renames_supplyAddress fixed _ _
  exact (before.renames_supplyAddress fixed _ _).bind fun started =>
    started.renames_supplyAddress fixed _ _

/-- The linker supplies the same symbols, and misses the same data. -/
theorem renames_complete (modules : List ObjectModule) (layout : DataLayout) (stackTop : Nat) :
    Renames f (SymbolTable.rename f) (table.complete modules layout stackTop)
      ((table.rename f).complete (modules.map (ObjectModule.rename f)) layout stackTop) := by
  refine ((table.renames_supplyConstructorCaller fixed modules).bind fun called =>
    called.renames_supplyStubs fixed).bind fun functions => ?_
  refine (functions.renames_supplyData fixed layout.segments).bind fun data => ?_
  refine (data.renames_supply fixed _ _ _).bind fun globals => ?_
  rw [undefinedData?_rename]
  cases globals.undefinedData? with
  | some symbol => exact .throw (.undefinedSymbol symbol.name)
  | none => exact .pure globals

end

end SymbolTable

/-! ## Imports -/

namespace SymbolTable

variable (table : SymbolTable)

theorem strongFunctions_rename : (table.rename f).strongFunctions = table.strongFunctions :=
  table.filterMap_symbols_rename rfl rfl

theorem strongGlobals_rename : (table.rename f).strongGlobals = table.strongGlobals :=
  table.filterMap_symbols_rename rfl rfl

theorem callsConstructors_rename :
    (table.rename f).callsConstructors = table.callsConstructors := by
  unfold callsConstructors
  refine congrArg (List.any table.syntheticFunctions) (funext fun id => ?_)
  rw [getElem?_rename, Option.any_map]
  rfl

theorem leadingTypes_rename : (table.rename f).leadingTypes = table.leadingTypes := by
  unfold leadingTypes
  rw [callsConstructors_rename]

end SymbolTable

theorem typeBase_rename (modules : List ObjectModule) (symbols : SymbolTable) (owner : ModuleId) :
    typeBase (modules.map (ObjectModule.rename f)) (symbols.rename f) owner =
      typeBase modules symbols owner := by
  unfold typeBase
  rw [SymbolTable.leadingTypes_rename, countBefore_rename fun _ => rfl]

theorem typeCount_rename (modules : List ObjectModule) (symbols : SymbolTable) :
    typeCount (modules.map (ObjectModule.rename f)) (symbols.rename f) =
      typeCount modules symbols := by
  unfold typeCount
  rw [SymbolTable.leadingTypes_rename, countAll_rename fun _ => rfl]

namespace Imports

theorem renames_ofFunction (modules : List ObjectModule) (symbols : SymbolTable)
    (owner : ModuleId) (position : UInt32) :
    Renames f id (ofFunction modules symbols owner position)
      (ofFunction (modules.map (ObjectModule.rename f)) (symbols.rename f) owner position) := by
  refine (renames_inputAt modules owner).bind fun module => ?_
  refine (renames_existing module.functionImports[position.toNat]?).bind fun found => ?_
  rw [typeBase_rename]
  exact (Renames.inWord _).map fun _ => rfl

theorem renames_ofGlobal (modules : List ObjectModule) (owner : ModuleId) (position : UInt32) :
    Renames f id (ofGlobal modules owner position)
      (ofGlobal (modules.map (ObjectModule.rename f)) owner position) :=
  (renames_inputAt modules owner).bind fun module =>
    (renames_existing module.globalImports[position.toNat]?).bind fun _ => .pure _

theorem renames_ofSymbols (modules : List ObjectModule) (symbols : SymbolTable) :
    Renames f id (ofSymbols modules symbols)
      (ofSymbols (modules.map (ObjectModule.rename f)) (symbols.rename f)) := by
  unfold ofSymbols
  rw [SymbolTable.strongFunctions_rename, SymbolTable.strongGlobals_rename]
  refine (Renames.mapM_items fun item _ =>
    renames_ofFunction modules symbols item.1 item.2).bind fun functions => ?_
  exact (Renames.mapM_items fun item _ => renames_ofGlobal modules item.1 item.2).bind fun _ =>
    .pure _

end Imports

/-! ## Programs -/

namespace Program

variable (program : Program)

theorem zipIdx_rename : (program.rename f).modules.zipIdx =
    program.modules.zipIdx.map (Prod.map (ObjectModule.rename f) id) :=
  List.zipIdx_map

/-- What is gathered from the inputs one after the other. -/
theorem flatMap_rename {α : Type} {entries entries' : ObjectModule × ModuleId → List α}
    (same : ∀ module owner,
      entries' (ObjectModule.rename f module, owner) = entries (module, owner)) :
    (program.rename f).modules.zipIdx.flatMap entries' =
      program.modules.zipIdx.flatMap entries := by
  rw [zipIdx_rename, List.flatMap_map]
  exact congrArg (List.flatMap · program.modules.zipIdx) (funext fun item => same item.1 item.2)

theorem renames_syntheticFunctionType (function : SymbolId) :
    Renames f id (program.syntheticFunctionType function)
      ((program.rename f).syntheticFunctionType function) := by
  refine (program.symbols.renames_get function).bind fun symbol => ?_
  obtain ⟨name, flags, context, target⟩ := symbol
  rcases target with (⟨_, _⟩ | ⟨_, _⟩ | (_ | ⟨owner, position⟩)) | _ | _
  case function.synthesized.trapStub =>
    exact (Imports.renames_ofFunction program.modules program.symbols owner position).map
      fun _ => rfl
  all_goals exact .pure _

theorem renames_functionTypes :
    Renames f id program.functionTypes (program.rename f).functionTypes := by
  have copied : (program.rename f).modules.zipIdx.flatMap (fun item =>
      item.1.functions.toList.map fun type => (program.rename f).typeBase item.2 + type.toNat) =
      program.modules.zipIdx.flatMap fun item =>
        item.1.functions.toList.map fun type => program.typeBase item.2 + type.toNat := by
    refine program.flatMap_rename fun module owner => ?_
    exact congrArg (fun base => module.functions.toList.map fun type => base + type.toNat)
      (typeBase_rename program.modules program.symbols owner)
  refine (Renames.mapM_items fun function _ =>
    program.renames_syntheticFunctionType function).bind fun synthetic => ?_
  have numbers {items items' : List Nat} (same : items' = items) :
      Renames f id (items.mapM inWord) (items'.mapM inWord) :=
    same ▸ Renames.mapM_items fun number _ => .inWord number
  exact (numbers copied).map fun _ => rfl

theorem renames_ofSession (fixed : f Symbol.linkerContext = Symbol.linkerContext)
    (session : Session) (base : Nat) :
    Renames f (Program.rename f) (ofSession session base) (ofSession (session.rename f) base) := by
  refine (DataLayout.renames_ofModules session.modules base).bind fun layout => ?_
  refine (renames_stackTop layout.stop).bind fun top => ?_
  refine (session.symbols.renames_complete fixed session.modules layout top).bind fun symbols => ?_
  have counted : Renames f id (inWord (StaticLink.typeCount session.modules symbols))
      (inWord (StaticLink.typeCount (session.rename f).modules (symbols.rename f))) := by
    rw [show StaticLink.typeCount (session.rename f).modules (symbols.rename f) = _ from
      typeCount_rename session.modules symbols]
    exact .inWord _
  refine counted.bind fun _ => ?_
  refine (Imports.renames_ofSymbols session.modules symbols).bind fun imports => ?_
  let program : Program := ⟨session.modules, symbols, layout, top, imports⟩
  exact program.renames_functionTypes.bind fun _ => .pure program

end Program

end StaticLink
