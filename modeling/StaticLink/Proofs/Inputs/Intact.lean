import StaticLink.Proofs.Inputs.Placement

/-!
# Modules and symbols that refer to each other

* `Target.Exists`: what a target stands for exists.
* `ObjectModule.NamesRecords`: the imports of a module stand for symbols of their kinds.
* `Intact`: no reference between some modules and a symbol table leads nowhere.
* `Session.addAll_intact`: none does in a session of which no input was refused.
-/

namespace StaticLink

/-! ## What modules and symbols refer to -/

/-- What the target stands for exists: a part of a module, the import that a stub stands in for, or
the functions that are called at start. -/
def Target.Exists (modules : List ObjectModule) (symbols : SymbolTable) : Target → Prop
  | .function (.synthesized (.trapStub owner position)) =>
    ∃ module, modules[owner]? = some module ∧ position.toNat < module.functionImports.size
  | .function (.synthesized (.constructorCaller functions)) =>
    ∀ id ∈ functions, symbols.Registered id .function
  | target => target.Within modules

/-- The imports of the module stand for symbols of their kinds, if for any. -/
structure ObjectModule.NamesRecords (module : ObjectModule) (symbols : SymbolTable) : Prop where
  functions : ∀ found ∈ module.functionImports, ∀ id, found.symbol = some id →
    symbols.Registered id .function
  globals : ∀ found ∈ module.globalImports, ∀ id, found.symbol = some id →
    symbols.Registered id .global

/-- All references between the modules and the symbols lead somewhere. -/
structure Intact (modules : List ObjectModule) (symbols : SymbolTable) : Prop where
  wellFormed : symbols.WellFormed
  targets : ∀ (id : SymbolId) (record : Symbol), symbols.records[id]? = some record →
    record.target.Exists modules symbols
  slots : ∀ module ∈ modules, module.Reads symbols (symbolEntries module.bytes)
  imports : ∀ module ∈ modules, module.NamesRecords symbols
  laidOut : ∀ module ∈ modules, module.LaidOut

variable {modules : List ObjectModule} {symbols next : SymbolTable} {target : Target}

theorem Target.Exists.later (exist : target.Exists modules symbols)
    (later : symbols.Extends next) : target.Exists modules next := by
  unfold Exists at *
  split at exist
  · exact exist
  · exact fun id member => (exist id member).later later
  · exact exist

/-- What an input registers exists where it is in bounds. -/
theorem Target.Within.exists (within : target.Within modules)
    (given : target.isSynthesized = false) : target.Exists modules symbols := by
  unfold Target.Exists
  split
  · cases given
  · cases given
  · exact within

/-! ## Entries -/

/-- No entry stands for what the linker supplies. -/
theorem ObjectModule.given_of_resolve {module : ObjectModule} {owner : ModuleId}
    {entryIndex : UInt32} {entry : SymbolEntry} {name : String}
    (h : module.resolve owner entryIndex entry = .ok (.named name target)) :
    target.isSynthesized = false := by
  cases resolve_eq_ok_iff.1 h <;> rfl

namespace ObjectModule.NamesRecords

variable {module other : ObjectModule} {id : SymbolId}

theorem later (names : module.NamesRecords symbols) (later : symbols.Extends next)
    (functions : other.functionImports = module.functionImports)
    (globals : other.globalImports = module.globalImports) : other.NamesRecords next where
  functions := by
    rw [functions]
    exact fun found member id stands => (names.functions found member id stands).later later
  globals := by
    rw [globals]
    exact fun found member id stands => (names.globals found member id stands).later later

theorem pushFunction (names : module.NamesRecords symbols) {found : FunctionImport}
    (fresh : found.symbol = none) :
    NamesRecords { module with functionImports := module.functionImports.push found } symbols where
  functions := by
    intro other member id stands
    rcases Array.mem_push.1 member with member | rfl
    · exact names.functions other member id stands
    · rw [fresh] at stands
      cases stands
  globals := names.globals

theorem pushGlobal (names : module.NamesRecords symbols) {found : GlobalImport}
    (fresh : found.symbol = none) :
    NamesRecords { module with globalImports := module.globalImports.push found } symbols where
  functions := names.functions
  globals := by
    intro other member id stands
    rcases Array.mem_push.1 member with member | rfl
    · exact names.globals other member id stands
    · rw [fresh] at stands
      cases stands

/-- An import that gets a symbol gets one of its kind. -/
theorem nameImport (names : module.NamesRecords symbols)
    (there : symbols.Registered id target.kind) :
    (module.nameImport target id).NamesRecords symbols := by
  unfold ObjectModule.nameImport
  split
  · refine ⟨?_, names.globals⟩
    intro found member other stands
    dsimp only at member
    rcases mem_or_exists_of_mem_modify member with member | ⟨old, -, rfl⟩
    · exact names.functions found member other stands
    · obtain rfl := Option.some.inj stands
      exact there
  · refine ⟨names.functions, ?_⟩
    intro found member other stands
    dsimp only at member
    rcases mem_or_exists_of_mem_modify member with member | ⟨old, -, rfl⟩
    · exact names.globals found member other stands
    · obtain rfl := Option.some.inj stands
      exact there
  · exact names

end ObjectModule.NamesRecords

/-! ## Loading -/

/-- The target is one that an input registers: the linker does not supply it. -/
def SymbolTable.Given (target : Target) : Prop := target.isSynthesized = false

/-- How far the loading of an input has come: only its own symbols were registered, and its imports
stand for symbols of their kinds. -/
structure Loading.Naming (start : SymbolTable) (loading : Loading) : Prop where
  given : SymbolTable.ReachedBy SymbolTable.Given start loading.symbols
  names : loading.module.NamesRecords loading.symbols

theorem Loading.Naming.note {owner : ModuleId} {start : SymbolTable} {before after : Loading}
    {event : Event} (naming : before.Naming start) (wf : start.WellFormed)
    (h : Loader.note owner event before = .ok () after) : after.Naming start := by
  have same (functions : after.module.functionImports = before.module.functionImports)
      (globals : after.module.globalImports = before.module.globalImports)
      (symbols : after.symbols = before.symbols) : after.Naming start := by
    refine ⟨by rw [symbols]; exact naming.given, ?_⟩
    rw [symbols]
    exact naming.names.later (.refl before.symbols) functions globals
  cases event with
  | symbol index entry =>
    obtain ⟨slot, middle, one, h⟩ := state_bind_eq_ok.1 h
    cases h
    rcases Loader.resolve_cases one with ⟨-, rfl⟩ | ⟨name, target, id, resolved, -, named, call⟩
    · exact ⟨naming.given, naming.names.later (.refl middle.symbols) rfl rfl⟩
    · have wf' := (naming.given.later wf).1
      have there := SymbolTable.registered_of_register wf' call
      have given : SymbolTable.ReachedBy SymbolTable.Given before.symbols middle.symbols := by
        refine .of_register call ?_
        rw [Loader.symbol_registration]
        exact ObjectModule.given_of_resolve resolved
      rw [Loader.symbol_registration] at there
      have names := (naming.names.later (given.later wf').2 rfl rfl).nameImport there
      rw [← named] at names
      exact ⟨naming.given.trans given, names.later (.refl middle.symbols) rfl rfl⟩
  | functionImport module field index typeIndex =>
    cases h
    exact ⟨naming.given, naming.names.pushFunction rfl⟩
  | globalImport module field index type =>
    cases h
    exact ⟨naming.given, naming.names.pushGlobal rfl⟩
  | segmentInfo =>
    rw [Loader.note_segmentInfo] at h
    split at h
    · cases h
      exact same rfl rfl rfl
    · cases h
  | relocation =>
    rw [Loader.note_relocation] at h
    split at h
    · cases h
      exact same rfl rfl rfl
    · cases h
  | _ =>
    cases h
    exact same rfl rfl rfl

theorem ObjectModule.load_naming {owner : ModuleId} {name : String} {bytes : Bytes}
    {start symbols : SymbolTable} {module : ObjectModule} (wf : start.WellFormed)
    (h : ObjectModule.load owner name bytes start = .ok module symbols) :
    SymbolTable.ReachedBy SymbolTable.Given start symbols ∧ module.NamesRecords symbols := by
  obtain ⟨-, last, events, rfl, rfl⟩ := load_run h
  have empty : Loading.Naming start { module := { name, bytes }, symbols := start } :=
    ⟨.refl _ start, ⟨by simp, by simp⟩⟩
  have naming : last.Naming start := forM_preserves (Loading.Naming start) events
    (fun _ _ _ step naming => naming.note wf step) empty
  exact ⟨naming.given, naming.names⟩

/-! ## All inputs -/

namespace Session

variable {inputs : List (String × Bytes)} {before after : Session} {name : String} {bytes : Bytes}

/-- The session holds what its inputs registered, and references between its modules and symbols
lead somewhere. -/
structure Whole (session : Session) : Prop where
  within : SymbolTable.ReachedBy (Target.Within session.modules) .empty session.symbols
  given : SymbolTable.ReachedBy SymbolTable.Given .empty session.symbols
  slots : ∀ module ∈ session.modules, module.Reads session.symbols (symbolEntries module.bytes)
  imports : ∀ module ∈ session.modules, module.NamesRecords session.symbols

theorem Whole.add (whole : before.Whole)
    (h : discard (Session.add name bytes) before = .ok () after) : after.Whole := by
  obtain ⟨module, loaded, modules⟩ := add_eq_ok h
  have wf := (whole.given.later SymbolTable.wellFormed_empty).1
  obtain ⟨registered, reads, -⟩ := ObjectModule.load_sound wf loaded
  obtain ⟨given, names⟩ := ObjectModule.load_naming wf loaded
  obtain ⟨-, bytes, -⟩ := ObjectModule.load_mirrors loaded
  have later := (registered.later wf).2
  refine ⟨?_, whole.given.trans given, ?_, ?_⟩
  · rw [modules]
    exact (whole.within.mono fun _ within => within.append [module]).trans registered
  · intro other member
    rw [modules] at member
    rcases List.mem_append.1 member with member | member
    · exact (whole.slots other member).later rfl (.refl other) later
    · obtain rfl := List.mem_singleton.1 member
      rw [bytes]
      exact reads
  · intro other member
    rw [modules] at member
    rcases List.mem_append.1 member with member | member
    · exact (whole.imports other member).later later rfl rfl
    · obtain rfl := List.mem_singleton.1 member
      exact names

theorem addAll_whole (h : addAll inputs .empty = .ok () after) : after.Whole := by
  have empty : Session.empty.Whole := ⟨.refl _ _, .refl _ _, by simp [empty], by simp [empty]⟩
  exact forM_preserves Whole h (fun _ _ _ step whole => whole.add step) empty

/-- Where no input was refused, no reference between inputs and symbols leads nowhere. -/
theorem addAll_intact (h : addAll inputs .empty = .ok () after) :
    Intact after.modules after.symbols := by
  have whole := addAll_whole h
  refine ⟨(whole.given.later SymbolTable.wellFormed_empty).1, ?_, whole.slots, whole.imports,
    addAll_laidOut h⟩
  intro id record found
  have within := whole.within.targets (by simp [SymbolTable.empty]) id record found
  have given := whole.given.targets (by simp [SymbolTable.empty]) id record found
  exact within.exists given

end Session

end StaticLink
