import StaticLink.Proofs.Inputs.Definitions
import StaticLink.Proofs.Program.Functions

/-!
# The imports of the linked module

The linked module imports what strong references name and nothing defines. An import is known by
its module and field, whatever the references to it are called.

* `Program.functionImportAt`, `Program.globalImportAt`: the import of an input that a reference is.
* `firstOfKeys_keys`: what is imported is each of the names once, in the order of the references.
* `GivesImports`: what a function and a global have in common that are imported by name.
* `Program.ImportsReferences`: the imports of a program, and the index of each reference.
* `link_imports`: it holds of the program of every linked module.
-/

namespace StaticLink

/-! ## Names in the order in which they are first seen -/

section Keys

variable {κ α : Type} [DecidableEq κ]

/-- It does not matter whether items are left out before or after repetitions are. -/
theorem eraseDups_filter (keep : κ → Bool) (items : List κ) :
    (items.filter keep).eraseDups = items.eraseDups.filter keep := by
  induction size : items.length using Nat.strongRecOn generalizing items with
  | _ size ih =>
    cases items with
    | nil => rfl
    | cons first rest =>
      have later := ih _ (by
        rw [← size, List.length_cons]
        exact Nat.lt_succ_of_le (List.length_filter_le _ _)) (rest.filter fun item => !item == first) rfl
      rw [List.eraseDups_cons, List.filter_cons, List.filter_cons]
      split
      · rw [List.eraseDups_cons, ← later, List.filter_filter, List.filter_filter]
        simp only [Bool.and_comm]
      · next dropped =>
        -- What is kept differs from the first item.
        rw [← later, List.filter_filter]
        refine congrArg _ (List.filter_congr fun item _ => ?_)
        by_cases same : item = first
        · subst same
          simp [dropped]
        · simp [same]

/-- The keys of the entries that count are all keys, each where it is first seen. -/
theorem firstOfKeys_keys (entries : List (κ × α)) :
    (firstOfKeys entries).map (·.1) = (entries.map (·.1)).eraseDups := by
  induction entries with
  | nil => rfl
  | cons entry rest ih =>
    have others : ((firstOfKeys rest).filter fun later => decide (later.1 ≠ entry.1)).map (·.1) =
        ((firstOfKeys rest).map (·.1)).filter fun key => !key == entry.1 := by
      rw [List.filter_map]
      refine congrArg _ (List.filter_congr fun later _ => ?_)
      simp only [Function.comp, ne_eq, decide_not]
      rfl
    rw [firstOfKeys, List.map_cons, List.map_cons, List.eraseDups_cons, others, ih,
      eraseDups_filter]

/-- The key of every entry has a position. -/
theorem exists_positionOfKey? {entries : List (κ × α)} {entry : κ × α} (member : entry ∈ entries) :
    ∃ index, positionOfKey? (firstOfKeys entries) entry.1 = some index ∧
      ((firstOfKeys entries).map (·.1))[index]? = some entry.1 := by
  have listed : entry.1 ∈ (firstOfKeys entries).map (·.1) :=
    mem_keys_firstOfKeys.2 (List.mem_map_of_mem member)
  obtain ⟨index, here⟩ := List.mem_iff_getElem?.1 listed
  refine ⟨index, ?_, here⟩
  rw [positionOfKey?_eq_idxOf?, idxOf?_eq_some_iff_of_nodup (keys_nodup_firstOfKeys entries)]
  exact here

end Keys

/-! ## Imports by name -/

/-- Where every result of one step goes with one of another step, so do the results of a run. -/
theorem exists_mapM {α β γ κ : Type} {items : List α} {step : α → Except Error β}
    {other : α → Except Error γ} {results : List β} (key : β → κ) (key' : γ → κ)
    (h : items.mapM step = .ok results)
    (goes : ∀ item result, step item = .ok result →
      ∃ found, other item = .ok found ∧ key result = key' found) :
    ∃ founds, items.mapM other = .ok founds ∧ results.map key = founds.map key' := by
  induction items generalizing results with
  | nil =>
    cases h
    exact ⟨[], rfl, rfl⟩
  | cons item rest ih =>
    rw [List.mapM_cons] at h
    obtain ⟨first, one, h⟩ := bind_eq_ok.1 h
    obtain ⟨later, others, rfl⟩ := return_eq_ok.1 h
    obtain ⟨found, here, same⟩ := goes item first one
    obtain ⟨founds, there, equal⟩ := ih others
    refine ⟨found :: founds, ?_, by rw [List.map_cons, List.map_cons, same, equal]⟩
    rw [List.mapM_cons]
    exact bind_eq_ok.2 ⟨found, here, return_eq_ok.2 ⟨founds, there, rfl⟩⟩

/-- The step gives the import that is found at a place, with its name and a type. -/
def GivesImports {α β : Type} (step : ModuleId × UInt32 → Except Error (ImportName × β))
    (importAt : ModuleId × UInt32 → Except Error α) (nameOf : α → ImportName)
    (typeOf : ModuleId × UInt32 → α → β) : Prop :=
  ∀ place entry, step place = .ok entry →
    ∃ found, importAt place = .ok found ∧ entry = (nameOf found, typeOf place found)

section Gives

variable {α β : Type} {step : ModuleId × UInt32 → Except Error (ImportName × β)}
  {importAt : ModuleId × UInt32 → Except Error α} {nameOf : α → ImportName}
  {typeOf : ModuleId × UInt32 → α → β} {places : List (ModuleId × UInt32)}
  {entries : List (ImportName × β)}

/-- The names of the entries that count are those of the imports, each once. -/
theorem GivesImports.names (gives : GivesImports step importAt nameOf typeOf)
    (each : places.mapM step = .ok entries) :
    ∃ founds, places.mapM importAt = .ok founds ∧
      (firstOfKeys entries).map (·.1) = (founds.map nameOf).eraseDups := by
  obtain ⟨founds, here, keys⟩ := exists_mapM (·.1) nameOf each fun place entry one => by
    obtain ⟨found, here, rfl⟩ := gives place entry one
    exact ⟨found, here, rfl⟩
  exact ⟨founds, here, by rw [← keys]; exact firstOfKeys_keys entries⟩

/-- The import at a place has a position among the entries that count. -/
theorem GivesImports.position (gives : GivesImports step importAt nameOf typeOf)
    (each : places.mapM step = .ok entries) {place : ModuleId × UInt32} (member : place ∈ places) :
    ∃ found index, importAt place = .ok found ∧
      positionOfKey? (firstOfKeys entries) (nameOf found) = some index ∧
      ((firstOfKeys entries).map (·.1))[index]? = some (nameOf found) := by
  obtain ⟨entry, among, one⟩ := exists_of_mapM_eq_ok each member
  obtain ⟨found, here, rfl⟩ := gives place entry one
  obtain ⟨index, first, there⟩ := exists_positionOfKey? among
  exact ⟨found, index, here, first, there⟩

end Gives

/-- No import stands behind a definition. -/
theorem Symbol.imports_of_isDefinition {symbol : Symbol} (defined : symbol.isDefinition = true) :
    symbol.functionImport? = none ∧ symbol.globalImport? = none := by
  unfold Symbol.isDefinition Symbol.isUndefined at defined
  unfold Symbol.functionImport? Symbol.globalImport?
  rcases target : symbol.target with (_ | _ | _) | (_ | _ | _) | _ <;>
    simp [target, Target.isUndefined] at defined ⊢

namespace Program

variable {program : Program} {session : Session} {base : Nat} {id : SymbolId} {symbol : Symbol}
  {owner : ModuleId} {position : UInt32}

/-- The function import of an input at this place. -/
def functionImportAt (program : Program) (place : ModuleId × UInt32) :
    Except Error FunctionImport := do
  (← program.input place.1).functionImport place.2

/-- The global import of an input at this place. -/
def globalImportAt (program : Program) (place : ModuleId × UInt32) :
    Except Error GlobalImport := do
  (← program.input place.1).globalImport place.2

/-- The imports of a program are those that its strong references name. -/
structure ImportsReferences (program : Program) : Prop where
  /-- What the non-local symbols can be. -/
  completed : ∀ id symbol, (id, symbol) ∈ program.symbols.symbols → symbol.Completed
  /-- Each function that a strong reference names is imported once, in the order of the
  references. -/
  functions : ∃ founds, program.symbols.strongFunctions.mapM program.functionImportAt = .ok founds ∧
    program.imports.functions.map (·.1) = (founds.map (·.importName)).eraseDups
  globals : ∃ founds, program.symbols.strongGlobals.mapM program.globalImportAt = .ok founds ∧
    program.imports.globals.map (·.1) = (founds.map (·.importName)).eraseDups
  nodup : (program.imports.functions.map (·.1)).Nodup ∧ (program.imports.globals.map (·.1)).Nodup
  /-- A strong reference to a function has the index of its own import. -/
  functionIndex : ∀ id symbol owner position, (id, symbol) ∈ program.symbols.symbols →
    symbol.target = .function (.undefined owner position) → symbol.isWeak = false →
    ∃ found index, program.functionImportAt (owner, position) = .ok found ∧
      program.functionIndex id = .ok index ∧
      (program.imports.functions.map (·.1))[index]? = some found.importName
  globalIndex : ∀ id symbol owner position, (id, symbol) ∈ program.symbols.symbols →
    symbol.target = .global (.undefined owner position) → symbol.isWeak = false →
    ∃ found index, program.globalImportAt (owner, position) = .ok found ∧
      program.globalIndex id = .ok index ∧
      (program.imports.globals.map (·.1))[index]? = some found.importName

/-! ## References and their imports -/

theorem givesImports_ofFunction (program : Program) :
    GivesImports
      (fun place => Imports.ofFunction program.modules program.symbols place.1 place.2)
      program.functionImportAt FunctionImport.importName
      fun place found => program.typeBase place.1 + found.typeIndex.toNat := by
  intro place entry h
  obtain ⟨module, found, input, here, -, rfl⟩ := exists_of_ofFunction h
  exact ⟨found, bind_eq_ok.2 ⟨module, input, here⟩, rfl⟩

theorem givesImports_ofGlobal (program : Program) :
    GivesImports (fun place => Imports.ofGlobal program.modules place.1 place.2)
      program.globalImportAt GlobalImport.importName fun _ found => found.type := by
  intro place entry h
  obtain ⟨module, input, h⟩ := bind_eq_ok.1 h
  obtain ⟨found, here, rfl⟩ := return_eq_ok.1 h
  exact ⟨found, bind_eq_ok.2 ⟨module, input, here⟩, rfl⟩

theorem mem_strongFunctions (member : (id, symbol) ∈ program.symbols.symbols)
    (target : symbol.target = .function (.undefined owner position))
    (strong : symbol.isWeak = false) : (owner, position) ∈ program.symbols.strongFunctions := by
  refine List.mem_filterMap.2 ⟨(id, symbol), List.mem_filter.2 ⟨member, ?_⟩, ?_⟩
  · simp [strong]
  · simp [Symbol.functionImport?, target]

theorem mem_strongGlobals (member : (id, symbol) ∈ program.symbols.symbols)
    (target : symbol.target = .global (.undefined owner position))
    (strong : symbol.isWeak = false) : (owner, position) ∈ program.symbols.strongGlobals := by
  refine List.mem_filterMap.2 ⟨(id, symbol), List.mem_filter.2 ⟨member, ?_⟩, ?_⟩
  · simp [strong]
  · simp [Symbol.globalImport?, target]

/-- The index of a reference to a function is that of its import. -/
theorem functionIndex_of_reference {found : FunctionImport} {index : Nat}
    (stands : program.symbols.get id = .ok symbol)
    (target : symbol.target = .function (.undefined owner position))
    (strong : symbol.isWeak = false)
    (here : program.functionImportAt (owner, position) = .ok found)
    (imported : program.imports.functionIndex? found.importName = some index) :
    program.functionIndex id = .ok index := by
  obtain ⟨module, input, taken⟩ := bind_eq_ok.1 here
  refine bind_eq_ok.2 ⟨symbol, stands, ?_⟩
  simp only [target, strong]
  refine bind_eq_ok.2 ⟨module, input, bind_eq_ok.2 ⟨found, taken, ?_⟩⟩
  rw [imported]
  rfl

/-- The index of a reference to a global is that of its import. -/
theorem globalIndex_of_reference {found : GlobalImport} {index : Nat}
    (stands : program.symbols.get id = .ok symbol)
    (target : symbol.target = .global (.undefined owner position))
    (strong : symbol.isWeak = false)
    (here : program.globalImportAt (owner, position) = .ok found)
    (imported : program.imports.globalIndex? found.importName = some index) :
    program.globalIndex id = .ok index := by
  obtain ⟨module, input, taken⟩ := bind_eq_ok.1 here
  refine bind_eq_ok.2 ⟨symbol, stands, ?_⟩
  simp only [target, strong]
  refine bind_eq_ok.2 ⟨module, input, bind_eq_ok.2 ⟨found, taken, ?_⟩⟩
  rw [imported]
  rfl

/-- The imports of a program, with the entries that they are the first ones of. -/
theorem exists_imports (h : Imports.ofSymbols program.modules program.symbols = .ok program.imports) :
    ∃ functions globals,
      program.symbols.strongFunctions.mapM (fun place =>
        Imports.ofFunction program.modules program.symbols place.1 place.2) = .ok functions ∧
      program.symbols.strongGlobals.mapM (fun place =>
        Imports.ofGlobal program.modules place.1 place.2) = .ok globals ∧
      program.imports.functions = firstOfKeys functions ∧
      program.imports.globals = firstOfKeys globals := by
  obtain ⟨functions, each, h⟩ := bind_eq_ok.1 h
  obtain ⟨globals, each', same⟩ := return_eq_ok.1 h
  exact ⟨functions, globals, each, each', (congrArg Imports.functions same).symm,
    (congrArg Imports.globals same).symm⟩

/-- What a program has decided for its symbols, its imports follow. -/
theorem Decided.importsReferences (decided : program.Decided session base)
    (wf : session.symbols.WellFormed) : program.ImportsReferences := by
  obtain ⟨functions, globals, each, each', same, same'⟩ := exists_imports decided.imports
  have wf' := ((SymbolTable.reached_of_complete decided.symbols).later wf).1
  have stands {id : SymbolId} {symbol : Symbol} (member : (id, symbol) ∈ program.symbols.symbols) :
      program.symbols.get id = .ok symbol :=
    existing_eq_ok.2 (wf'.lookup_of_mem_symbols member).2
  refine ⟨fun id symbol => SymbolTable.completed_of_complete wf decided.symbols, ?_, ?_, ?_, ?_, ?_⟩
  · rw [same]
    exact (givesImports_ofFunction program).names each
  · rw [same']
    exact (givesImports_ofGlobal program).names each'
  · rw [same, same']
    exact ⟨keys_nodup_firstOfKeys functions, keys_nodup_firstOfKeys globals⟩
  · intro id symbol owner position member target strong
    obtain ⟨found, index, here, first, there⟩ :=
      (givesImports_ofFunction program).position each (mem_strongFunctions member target strong)
    rw [← same] at first there
    exact ⟨found, index, here,
      functionIndex_of_reference (stands member) target strong here first, there⟩
  · intro id symbol owner position member target strong
    obtain ⟨found, index, here, first, there⟩ :=
      (givesImports_ofGlobal program).position each' (mem_strongGlobals member target strong)
    rw [← same'] at first there
    exact ⟨found, index, here,
      globalIndex_of_reference (stands member) target strong here first, there⟩

/-- The section for imports has an entry for each of them. -/
theorem Written.importContents {interface : Interface} {contents : SectionId → Option Bytes}
    {output : Bytes} (written : program.Written interface contents output) :
    contents .imports = if UInt32.ofNat program.importCount = 0 then none
      else some (Leb128.ofUInt32 (.ofNat program.importCount) ++ program.importEntries) := by
  have made : vectorContents (.ofNat program.importCount) (.ok program.importEntries) =
      .ok (contents .imports) := written.made .imports
  unfold vectorContents at made
  split
  · next none =>
    rw [if_pos none] at made
    exact (Except.ok.inj made).symm
  · next any =>
    rw [if_neg any] at made
    exact (Except.ok.inj made).symm

end Program

/-- A linked module imports what strong references name and nothing defines, each function and each
global once and in the order of the references, and a reference has the index of its import. Of the
other references only weak ones to globals and to data are left. A name that any input defines is
none of the references. -/
theorem link_imports {inputs : List (String × Bytes)} {options : Options} {output : Bytes}
    (linked : link inputs options = .ok output) :
    ∃ program interface contents, Program.ofInputs inputs options = .ok program ∧
      program.Written interface contents output ∧
      contents .imports = (if UInt32.ofNat program.importCount = 0 then none
        else some (Leb128.ofUInt32 (.ofNat program.importCount) ++ program.importEntries)) ∧
      program.ImportsReferences ∧
      ∀ input ∈ inputs, ∀ entry ∈ symbolEntries input.2, ∀ name,
        entry.definedName? = some name →
        (∃ id symbol, (id, symbol) ∈ program.symbols.symbols ∧ symbol.name = name) ∧
        ∀ id symbol, (id, symbol) ∈ program.symbols.symbols → symbol.name = name →
          symbol.isDefinition = true ∧ symbol.functionImport? = none ∧
            symbol.globalImport? = none := by
  obtain ⟨program, interface, decided, -, written⟩ := exists_written_of_link linked
  obtain ⟨session, added, parts⟩ := Program.decided_of_ofInputs decided
  have wf := (Program.sound_of_ofInputs decided).wellFormed
  have wf' := ((Session.addAll_sound added).registered.later SymbolTable.wellFormed_empty).1
  refine ⟨program, interface, _, decided, written, written.importContents,
    parts.importsReferences wf', ?_⟩
  intro input member entry among name named
  have defines := Program.defines_of_ofInputs decided input member entry among name named
  refine ⟨?_, fun id symbol listed same => ?_⟩
  · obtain ⟨id, record, known, found, -⟩ := defines
    have same := wf.name_eq known found
    exact ⟨id, record, wf.mem_symbols_iff.2 ⟨by rw [same, known], found⟩, same⟩
  · have defined := defines.isDefinition wf listed same
    exact ⟨defined, Symbol.imports_of_isDefinition defined⟩

/-- An input that refers to two functions and a global, and one that defines the first function. -/
def referring : List (String × Bytes) :=
  [("caller.o",
      [0, 97, 115, 109, 1, 0, 0, 0, 1, 4, 1, 96, 0, 0, 2, 20, 3, 1, 101, 1, 102, 0, 0, 1, 101, 1,
        103, 0, 0, 1, 101, 1, 120, 3, 127, 0, 0, 21, 7, 108, 105, 110, 107, 105, 110, 103, 2, 8, 10,
        3, 0, 16, 0, 0, 16, 1, 2, 16, 0]),
    ("callee.o",
      [0, 97, 115, 109, 1, 0, 0, 0, 1, 4, 1, 96, 0, 0, 3, 2, 1, 0, 10, 4, 1, 2, 0, 11, 0, 17, 7,
        108, 105, 110, 107, 105, 110, 103, 2, 8, 6, 1, 0, 0, 0, 1, 102])]

/-- What they are linked to. -/
def linkedReferring : Bytes :=
  [0, 97, 115, 109, 1, 0, 0, 0, 1, 135, 128, 128, 128, 0, 2, 96, 0, 0, 96, 0, 0, 2, 142, 128, 128,
   128, 0, 2, 1, 101, 1, 103, 0, 0, 1, 101, 1, 120, 3, 127, 0, 3, 130, 128, 128, 128, 0, 1, 1, 4,
   133, 128, 128, 128, 0, 1, 112, 1, 1, 1, 5, 131, 128, 128, 128, 0, 1, 0, 2, 6, 136, 128, 128, 128,
   0, 1, 127, 1, 65, 128, 128, 8, 11, 7, 138, 128, 128, 128, 0, 1, 6, 109, 101, 109, 111, 114, 121,
   2, 0, 10, 132, 128, 128, 128, 0, 1, 2, 0, 11]

/-- The function that is defined is not imported, and the others are. -/
theorem link_referring :
    ∃ program : Program, program.ImportsReferences ∧
      program.imports = ⟨[(⟨"e", "g"⟩, 0)], [(⟨"e", "x"⟩, ⟨.i32, false⟩)]⟩ ∧
      ∀ id symbol, (id, symbol) ∈ program.symbols.symbols → symbol.name = "f" →
        symbol.functionImport? = none := by
  have linked : link referring {} = .ok linkedReferring := by decide +kernel
  have imports : (Program.ofInputs referring {}).map (·.imports) =
      .ok ⟨[(⟨"e", "g"⟩, 0)], [(⟨"e", "x"⟩, ⟨.i32, false⟩)]⟩ := by decide +kernel
  have defines : ∃ input ∈ referring, .function .empty 0 (some "f") ∈ symbolEntries input.2 := by
    decide +kernel
  obtain ⟨program, _, _, decided, -, -, references, defined⟩ := link_imports linked
  rw [decided] at imports
  obtain ⟨input, member, entry⟩ := defines
  refine ⟨program, references, Except.ok.inj imports, fun id symbol listed named => ?_⟩
  exact ((defined input member _ entry "f" rfl).2 id symbol listed named).2.1

end StaticLink
