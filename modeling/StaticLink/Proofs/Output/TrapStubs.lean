import StaticLink.Proofs.Inputs.WeakNames
import StaticLink.Proofs.Output.Constructors
import StaticLink.Proofs.Output.ExportedNames
import StaticLink.Proofs.Output.Operands
import StaticLink.Proofs.Output.Stubs

/-!
# Stubs that trap

Where inputs refer to a function weakly, and none of them needs or defines it, the linker supplies a
stub. Its symbol is added to a table, and five parts of the linked module are made from that table,
each of which has to find the same symbol at the same place.

* `Program.TrapStub`: the stub of a name, by its symbol and its index.
* `Program.EmitsStub`: what the linked module has of it.
* `Program.exists_trapStub`, `Program.TrapStub.emits`: each name that is only weakly referred to has
  a stub, and the linked module has all of it.
* `link_trapStubs`: this holds of every linked module, and there are no other stubs.
-/

namespace StaticLink

/-- The body of a function that traps, with its size. -/
def trapBody : Bytes := [3, 0, Opcode.unreachable, Opcode.endExpression]

namespace Program

theorem functionBody_unreachable : functionBody [Opcode.unreachable] = trapBody := by decide

/-- The symbol is a reason to import the function called `name`: it is a strong reference that names
this import. -/
def FunctionReason (program : Program) (id : SymbolId) (name : ImportName) : Prop :=
  ∃ symbol place found, (id, symbol) ∈ program.symbols.symbols ∧ symbol.isWeak = false ∧
    symbol.functionImport? = some place ∧ program.functionImportAt place = .ok found ∧
    found.importName = name

/-- The symbol is a reason to import the global called `name`. -/
def GlobalReason (program : Program) (id : SymbolId) (name : ImportName) : Prop :=
  ∃ symbol place found, (id, symbol) ∈ program.symbols.symbols ∧ symbol.isWeak = false ∧
    symbol.globalImport? = some place ∧ program.globalImportAt place = .ok found ∧
    found.importName = name

/-- The linker supplies a function under this name. -/
def SuppliesFunction (program : Program) (name : String) (id : SymbolId) : Bool :=
  (program.symbols.records[id]?).any (·.name == name)

/-- Symbol `id` is the stub of `name`, with this index. It stands in for the import `found` of input
`owner`. -/
structure TrapStub (inputs : List (String × Bytes)) (program : Program) (name : String)
    (id : SymbolId) (index : Nat) (owner : ModuleId) (found : FunctionImport) : Prop where
  known : program.symbols.lookup name = some id
  /-- The import is that of the first reference. -/
  stands : ∃ position,
    program.symbols.get id = .ok (SymbolTable.stubRecord name owner position) ∧
    FirstRefers inputs program.modules name owner position ∧
    program.functionImportAt (owner, position) = .ok found
  /-- There is one stub for the name. -/
  single : program.symbols.syntheticFunctions.filter (program.SuppliesFunction name) = [id]
  indexed : program.functionIndex id = .ok index
  behind : program.imports.functions.length ≤ index
  /-- All entries that go by the name lead to the stub. -/
  references : ∀ lead ∈ sharedLeads inputs program.modules name, lead.slot = .symbol id
  /-- Nothing is imported for it. -/
  functionImports : ∀ entry ∈ program.imports.functions, ∃ other, program.FunctionReason other entry.1
  globalImports : ∀ entry ∈ program.imports.globals, ∃ other, program.GlobalReason other entry.1
  unimported : ∀ name, ¬ program.FunctionReason id name ∧ ¬ program.GlobalReason id name

/-- What the linked module has of a stub, and that it is not exported. -/
structure EmitsStub (program : Program) (contents : SectionId → Option Bytes) (output : Bytes)
    (exports : List (String × ExternalKind × Nat)) (name : String) (id : SymbolId) (index : Nat)
    (owner : ModuleId) (found : FunctionImport) : Prop where
  /-- Every reference to the function becomes the index of the stub. -/
  operands : ∀ source relocation, program.Calls source relocation id →
    program.OperandBecomes output source relocation index
  /-- What is exported under the name is the memory, if anything. -/
  name : ∀ kind other, (name, kind, other) ∈ exports → kind = .memory
  unexported : ∀ called, (called, .function, index) ∉ exports
  typed : UInt32.ofNat program.functionCount ≠ 0 → ∃ types : List Nat,
    contents .functions = some (encodeNat program.functionCount ++ types.flatMap encodeNat) ∧
    types.length = program.functionCount ∧
    types[index - program.imports.functions.length]? =
      some (program.typeBase owner + found.typeIndex.toNat)
  body : program.symbols.syntheticFunctions.length % wordLimit ≠ 0 →
    program.BodyAt contents id trapBody

variable {inputs : List (String × Bytes)} {options : Options} {program : Program} {name : String}
  {id other : SymbolId} {index : Nat} {owner : ModuleId} {found : FunctionImport}
  {session : Session} {base : Nat} {record : Symbol} {position : UInt32}

/-! ## The reasons for imports -/

/-- What is listed for strong references comes from one of them. -/
theorem exists_reference_of_firstOfKeys {α β : Type} {table : SymbolTable}
    {picked : Symbol → Option α} {listing : α → Except Error (ImportName × β)}
    {entries : List (ImportName × β)} {entry : ImportName × β}
    (each : ((table.symbols.filter fun (_, symbol) => !symbol.isWeak).filterMap
      fun (_, symbol) => picked symbol).mapM listing = .ok entries)
    (member : entry ∈ firstOfKeys entries) : ∃ id symbol place, (id, symbol) ∈ table.symbols ∧
      symbol.isWeak = false ∧ picked symbol = some place ∧ listing place = .ok entry := by
  obtain ⟨k, here⟩ := List.mem_iff_getElem?.1 ((firstOfKeys_sublist entries).subset member)
  obtain ⟨place, listed, one⟩ := exists_item_of_mapM_eq_ok each here
  obtain ⟨⟨id, symbol⟩, strong, picked⟩ := List.mem_filterMap.1 (List.mem_of_getElem? listed)
  obtain ⟨among, flag⟩ := List.mem_filter.1 strong
  exact ⟨id, symbol, place, among, by simpa using flag, picked, one⟩

theorem exists_functionReason
    (h : Imports.ofSymbols program.modules program.symbols = .ok program.imports)
    {entry : ImportName × Nat} (member : entry ∈ program.imports.functions) :
    ∃ id, program.FunctionReason id entry.1 := by
  obtain ⟨functions, -, each, -, same, -⟩ := exists_imports h
  rw [same] at member
  obtain ⟨id, symbol, place, among, strong, picked, one⟩ :=
    exists_reference_of_firstOfKeys each member
  obtain ⟨found, named, rfl⟩ := givesImports_ofFunction program place entry one
  exact ⟨id, symbol, place, found, among, strong, picked, named, rfl⟩

theorem exists_globalReason
    (h : Imports.ofSymbols program.modules program.symbols = .ok program.imports)
    {entry : ImportName × GlobalType} (member : entry ∈ program.imports.globals) :
    ∃ id, program.GlobalReason id entry.1 := by
  obtain ⟨-, globals, -, each, -, same⟩ := exists_imports h
  rw [same] at member
  obtain ⟨id, symbol, place, among, strong, picked, one⟩ :=
    exists_reference_of_firstOfKeys each member
  obtain ⟨found, named, rfl⟩ := givesImports_ofGlobal program place entry one
  exact ⟨id, symbol, place, found, among, strong, picked, named, rfl⟩

/-- What the linker supplies is no reason for an import. -/
theorem not_reason_of_synthesized (wf : program.symbols.WellFormed)
    (stands : program.symbols.get id = .ok record) (supplied : record.target.isSynthesized = true)
    (name : ImportName) : ¬ program.FunctionReason id name ∧ ¬ program.GlobalReason id name := by
  have defined : record.isDefinition = true := by
    rw [Symbol.isDefinition, Symbol.isUndefined]
    unfold Target.isSynthesized at supplied
    split at supplied
    · next target => rw [target]; rfl
    · next target => rw [target]; rfl
    · next target => rw [target]; rfl
    · cases supplied
  obtain ⟨function, global⟩ := Symbol.imports_of_isDefinition defined
  constructor
  · rintro ⟨symbol, place, -, member, -, picked, -⟩
    cases stands.symm.trans (existing_eq_ok.2 (wf.mem_symbols_iff.1 member).2)
    cases function.symm.trans picked
  · rintro ⟨symbol, place, -, member, -, picked, -⟩
    cases stands.symm.trans (existing_eq_ok.2 (wf.mem_symbols_iff.1 member).2)
    cases global.symm.trans picked

/-! ## One function, one symbol -/

/-- No other symbol has the index of a function that the linker supplies. -/
theorem eq_of_functionIndex (wf : program.symbols.WellFormed)
    (listed : id ∈ program.symbols.syntheticFunctions)
    (here : program.functionIndex id = .ok index) (there : program.functionIndex other = .ok index) :
    other = id := by
  obtain ⟨place, at'⟩ := List.mem_iff_getElem?.1 listed
  rw [functionIndex_of_synthetic wf at'] at here
  cases here
  have inside := (List.getElem?_eq_some_iff.1 at').1
  generalize same : program.imports.functions.length + place = index at there
  cases functionAt_of_functionIndex there with
  | @defined _ owner =>
    unfold functionBase syntheticFunctionBase at same
    omega
  | imported _ _ _ _ _ imported =>
    obtain ⟨small, -⟩ := List.findIdx?_eq_some_iff_getElem.1 imported
    omega
  | @supplied _ _ position _ _ known =>
    have there : program.symbols.syntheticFunctions[position]? = some other :=
      (idxOf?_eq_some_iff_of_nodup (wf.synthetic_nodup .function)).1 known
    rw [← Nat.add_left_cancel same, at'] at there
    exact (Option.some.inj there).symm

/-- The functions that the linker supplies have different names. -/
theorem filter_suppliesFunction (wf : program.symbols.WellFormed)
    (named : program.symbols.SuppliedByName) (listed : id ∈ program.symbols.syntheticFunctions)
    (stands : program.symbols.records[id]? = some record) :
    program.symbols.syntheticFunctions.filter (program.SuppliesFunction record.name) = [id] := by
  have nodup : program.symbols.syntheticFunctions.Nodup := wf.synthetic_nodup .function
  have only : ∀ other ∈ program.symbols.syntheticFunctions,
      program.SuppliesFunction record.name other = (other == id) := by
    intro other member
    obtain ⟨symbol, found, supplied, -⟩ := (wf.mem_synthetic .function other).1 member
    have known := named other symbol found supplied
    rw [SuppliesFunction, found, Option.any_some, Bool.eq_iff_iff, beq_iff_eq, beq_iff_eq]
    obtain ⟨own, stands', supplied', -⟩ := (wf.mem_synthetic .function id).1 listed
    cases stands.symm.trans stands'
    constructor
    · intro same
      rw [same, named id record stands supplied'] at known
      exact (Option.some.inj known).symm
    · rintro rfl
      rw [Option.some.inj (found.symm.trans stands)]
  rw [List.filter_congr only, List.filter_beq]
  rw [List.count_eq_one_of_mem nodup listed, List.replicate_one]

/-! ## The stub of a name -/

theorem Decided.suppliedByName (decided : program.Decided session base)
    (added : Session.addAll inputs .empty = .ok () session) : program.symbols.SuppliedByName := by
  have whole := Session.addAll_whole added
  refine SymbolTable.SuppliedByName.complete (fun id record found supplied => ?_)
    (Session.addAll_intact added).wellFormed decided.symbols
  have given := whole.given.targets (by simp [SymbolTable.empty]) id record found
  rw [show record.target.isSynthesized = false from given] at supplied
  cases supplied

/-- A name that is only weakly referred to has a stub. -/
theorem exists_trapStub (decided : ofInputs inputs options = .ok program)
    (apart : name ≠ constructorCallerName) (weakly : OnlyWeakly inputs program.modules name) :
    ∃ id index owner found, program.TrapStub inputs name id index owner found := by
  obtain ⟨session, added, decides⟩ := decided_of_ofInputs decided
  have intact := decides.intact (Session.addAll_intact added)
  have wf := intact.wellFormed
  rw [← decides.modules] at weakly
  obtain ⟨owner, position, standing, first⟩ :=
    Session.exists_stub_of_complete added decides.symbols apart weakly
  obtain ⟨id, known, found⟩ := Option.bind_eq_some_iff.1 standing
  have stands : program.symbols.get id = .ok (SymbolTable.stubRecord name owner position) :=
    existing_eq_ok.2 found
  have listed : id ∈ program.symbols.syntheticFunctions :=
    (wf.mem_synthetic .function id).2 ⟨_, found, rfl, rfl⟩
  obtain ⟨place, at'⟩ := List.mem_iff_getElem?.1 listed
  obtain ⟨module, input, small⟩ := intact.targets id _ found
  refine ⟨id, _, owner, module.functionImports[position.toNat], known,
    ⟨position, stands, by rw [← decides.modules]; exact first, ?_⟩,
    filter_suppliesFunction wf (decides.suppliedByName added) listed found,
    functionIndex_of_synthetic wf at', Nat.le_add_right _ _, ?_,
    fun _ => exists_functionReason decides.imports,
    fun _ => exists_globalReason decides.imports, not_reason_of_synthesized wf stands rfl⟩
  · exact bind_eq_ok.2 ⟨module, existing_eq_ok.2 input,
      existing_eq_ok.2 (Array.getElem?_eq_getElem small)⟩
  · intro lead member
    rw [(decides.slotted added).sharedLeads_eq wf known] at member
    exact of_decide_eq_true (List.mem_filter.1 member).2

/-! ## What the linked module has of a stub -/

namespace TrapStub

variable {interface : Interface} {contents : SectionId → Option Bytes} {output : Bytes}
  {exports : List (String × ExternalKind × Nat)} {names : List String}

theorem listed (stub : program.TrapStub inputs name id index owner found) :
    id ∈ program.symbols.syntheticFunctions := by
  have single : id ∈ program.symbols.syntheticFunctions.filter (program.SuppliesFunction name) := by
    rw [stub.single]
    exact List.mem_singleton_self id
  exact (List.mem_filter.1 single).1

/-- There is no reason to export a stub. -/
theorem not_exportsFunction (stub : program.TrapStub inputs name id index owner found)
    (stands : program.symbols.get id = .ok record) {called : String} :
    ¬ ExportsFunction names called record := by
  obtain ⟨position, here, -⟩ := stub.stands
  cases stands.symm.trans here
  intro reason
  cases reason with
  | entryPoint _ own => cases own
  | requested _ own => cases own
  | flagged exported =>
    have hidden : (SymbolFlags.weak.union .hidden).contains .exported = false := by decide
    cases hidden.symm.trans exported

theorem kind_of_exported (stub : program.TrapStub inputs name id index owner found)
    {kind : ExternalKind} {place : Nat} (exported : program.Exported names name kind place) :
    kind = .memory := by
  cases exported with
  | memory => rfl
  | function _ known stands reason =>
    cases known.symm.trans stub.known
    exact absurd reason (stub.not_exportsFunction stands)
  | global _ known stands _ _ kind =>
    obtain ⟨position, here, -⟩ := stub.stands
    cases known.symm.trans stub.known
    cases stands.symm.trans here
    cases kind

theorem not_exported (stub : program.TrapStub inputs name id index owner found)
    (wf : program.symbols.WellFormed) {called : String} :
    ¬ program.Exported names called .function index := by
  intro exported
  cases exported with
  | function _ _ stands reason there =>
    cases eq_of_functionIndex wf stub.listed stub.indexed there
    exact stub.not_exportsFunction stands reason

/-- The export of a stub is refused. -/
theorem exports_eq_error (stub : program.TrapStub inputs name id index owner found)
    (h : program.exports names = .ok exports) :
    program.exports [name] = .error (.exportNotFound name) := by
  obtain ⟨entryPoint, one, h⟩ := bind_eq_ok.1 h
  obtain ⟨flagged, two, -⟩ := bind_eq_ok.1 h
  obtain ⟨position, stands, -⟩ := stub.stands
  have none : program.definedFunction? name = none := by
    rw [definedFunction?, stub.known, Option.filter_some, existing_eq_ok.1 stands]
    rfl
  have three : program.requestedExports [name] = .error (.exportNotFound name) := by
    rw [requestedExports, List.mapM_cons]
    simp only [none]
    rfl
  unfold Program.exports
  rw [one, two, three]
  rfl

theorem syntheticBody_eq (stub : program.TrapStub inputs name id index owner found) :
    program.syntheticBody id = .ok trapBody := by
  obtain ⟨position, stands, -⟩ := stub.stands
  rw [← functionBody_unreachable]
  exact bind_eq_ok.2 ⟨_, stands, rfl⟩

/-- The type of a stub is that of the import it stands in for. -/
theorem getElem?_functionTypes (stub : program.TrapStub inputs name id index owner found)
    (wf : program.symbols.WellFormed) {types : List Nat}
    (typed : program.functionTypes = .ok types) :
    types[index - program.imports.functions.length]? =
      some (program.typeBase owner + found.typeIndex.toNat) := by
  obtain ⟨position, stands, -, imports⟩ := stub.stands
  obtain ⟨type, here, has⟩ :=
    hasType_of_functionTypes wf typed (.supplied stub.listed stub.indexed) stub.behind
  rw [here]
  cases has with
  | constructorCaller stands' target =>
    cases stands.symm.trans stands'
    cases target
  | stub stands' target input found' =>
    cases stands.symm.trans stands'
    cases target
    obtain ⟨module, input', imports⟩ := bind_eq_ok.1 imports
    cases input.symm.trans input'
    cases found'.symm.trans imports
    rfl

/-- The linked module has all of a stub. -/
theorem emits (stub : program.TrapStub inputs name id index owner found)
    (wf : program.symbols.WellFormed)
    (layout : DataLayout.ofModules program.modules base = .ok program.layout)
    (written : program.Written interface contents output)
    (listed : program.exports names = .ok exports) :
    program.EmitsStub contents output exports name id index owner found where
  operands source relocation calls := by
    obtain ⟨position, stands, -⟩ := stub.stands
    have function : program.symbols.Registered id .function :=
      ⟨_, existing_eq_ok.1 stands, rfl⟩
    refine operandBecomes_of_operandValue written.contents layout fun current value computed => ?_
    rw [calls.operandValue function, stub.indexed] at computed
    exact (Except.ok.inj computed).symm
  name kind place member :=
    stub.kind_of_exported (((exportsNames_of_exports wf listed).mem_iff _ _ _).1 member)
  unexported called member :=
    stub.not_exported wf (((exportsNames_of_exports wf listed).mem_iff _ _ _).1 member)
  typed any := by
    rcases vectorContents_eq_ok (written.made .functions) with ⟨none, -⟩ | ⟨-, _, produced, here⟩
    · exact absurd none any
    · obtain ⟨types, typed, rfl⟩ := return_eq_ok.1 produced
      exact ⟨types, here, length_functionTypes typed, stub.getElem?_functionTypes wf typed⟩
  body some := by
    obtain ⟨body, made, -, placed⟩ :=
      exists_bodyAt wf written (written.codeCount_ne_zero some) stub.listed
    cases stub.syntheticBody_eq.symm.trans made
    exact placed

end TrapStub

end Program

/-! ## Links -/

variable {inputs : List (String × Bytes)} {options : Options} {output : Bytes} {name : String}

/-- Linking fails where a name is asked for that is only weakly referred to. -/
theorem exists_error_of_request {session : Session}
    (added : Session.addAll inputs .empty = .ok () session)
    (weakly : OnlyWeakly inputs session.modules name) (apart : name ≠ constructorCallerName)
    (asked : name ∈ options.exports) : ∃ error, link inputs options = .error error := by
  rcases linked : link inputs options with error | output
  · exact ⟨error, rfl⟩
  · obtain ⟨program, interface, _, decided, -, -, exportsNames, -⟩ := link_exportsNames linked
    obtain ⟨again, added', decides⟩ := Program.decided_of_ofInputs decided
    cases added.symm.trans added'
    rw [decides.modules] at weakly
    obtain ⟨id, index, owner, found, stub⟩ := Program.exists_trapStub decided apart weakly
    obtain ⟨id', record, -, known, stands, own, -⟩ := exportsNames.lists.requested name asked
    cases stub.known.symm.trans known
    exact absurd (.requested asked own) (stub.not_exportsFunction stands)

/-- A name that is only weakly referred to, as a function, has a stub in a linked module, unless it
is that of the function which calls the initializers. The stub has one index, which all references
to it become, no import and no export, and asking for its export makes linking fail. Its type and its
body are at the place of this index: the body traps. No other name has a stub.

The functions, and those of them that the linker supplies, are counted by a word. Nothing is said of
the type where the number of the former is a positive multiple of `wordLimit`, so that the word is
zero, nor of the body where that of the latter is one, but inputs of fewer than `wordLimit` bytes have
no such numbers. -/
theorem link_trapStubs (linked : link inputs options = .ok output) :
    ∃ program interface contents, Program.ofInputs inputs options = .ok program ∧
      program.Written interface contents output ∧
      (∀ name, name ≠ constructorCallerName → OnlyWeakly inputs program.modules name →
        ∃ id index owner found, program.TrapStub inputs name id index owner found ∧
          program.EmitsStub contents output interface.exports name id index owner found ∧
          link inputs { options with exports := [name] } = .error (.exportNotFound name) ∧
          ∀ others : Options, name ∈ others.exports → ∃ error, link inputs others = .error error) ∧
      (∀ id record owner position, program.symbols.get id = .ok record →
        record.target = .function (.synthesized (.trapStub owner position)) →
          record.name ≠ constructorCallerName ∧ OnlyWeakly inputs program.modules record.name) ∧
      (totalSize inputs < wordLimit → ∀ id ∈ program.symbols.syntheticFunctions,
        UInt32.ofNat program.functionCount ≠ 0 ∧
        program.symbols.syntheticFunctions.length % wordLimit ≠ 0 ∧
        ∀ index, program.functionIndex id = .ok index → index < wordLimit) := by
  obtain ⟨program, interface, decided, shown, written⟩ := exists_written_of_link linked
  obtain ⟨session, added, decides⟩ := Program.decided_of_ofInputs decided
  have wf := (Program.sound_of_ofInputs decided).wellFormed
  have listed := (Program.interface_eq_ok_iff.1 shown).1
  refine ⟨program, interface, _, decided, written, ?_, ?_, ?_⟩
  · intro name apart weakly
    obtain ⟨id, index, owner, found, stub⟩ := Program.exists_trapStub decided apart weakly
    refine ⟨id, index, owner, found, stub, stub.emits wf decides.layout written listed, ?_, ?_⟩
    · have same : Program.ofInputs inputs { options with exports := [name] } = .ok program := decided
      rw [link_eq, same]
      show (program.interface { options with exports := [name] } >>= program.encode) = _
      rw [Program.interface_eq, stub.exports_eq_error listed]
      rfl
    · intro others asked
      rw [← decides.modules] at weakly
      exact exists_error_of_request added weakly apart asked
  · intro id record owner position stands target
    have known := decides.suppliedByName added id record (existing_eq_ok.1 stands)
      (by rw [target]; rfl)
    have standing : program.symbols.record? record.name = some record :=
      Option.bind_eq_some_iff.2 ⟨id, known, existing_eq_ok.1 stands⟩
    rw [← decides.modules]
    exact Session.onlyWeakly_of_stub added decides.symbols standing target
  · intro small id member
    have numbered := Program.numbered_of_ofInputs decided small
    refine ⟨fun none => ?_, Program.syntheticFunctions_mod_ne_zero decided small member,
      fun index here => ?_⟩
    · have few := Nat.lt_of_le_of_lt (Nat.le_add_left _ _) numbered.small
      have count := UInt32.toNat_ofNat_of_lt' few
      have some := List.length_pos_of_mem member
      rw [none, Program.functionCount] at count
      exact Nat.ne_of_lt (Nat.add_pos_left some _) count
    · have bounded := Program.bounded_of_ofInputs decided
      exact (Program.measured_of_ofInputs decided).lt_wordLimit small
        (bounded.few_of_sum (.symbolFunction here) trivial)

/-- An input whose function calls one that it refers to weakly. -/
def weaklyCalling : List (String × Bytes) :=
  [("weak.o",
      [0, 97, 115, 109, 1, 0, 0, 0, 1, 4, 1, 96, 0, 0, 2, 9, 1, 3, 101, 110, 118, 1, 102, 0, 0, 3, 2,
        1, 0, 10, 10, 1, 8, 0, 16, 128, 128, 128, 128, 0, 11, 0, 20, 7, 108, 105, 110, 107, 105, 110,
        103, 2, 8, 9, 2, 0, 17, 0, 0, 0, 1, 1, 103, 0, 16, 10, 114, 101, 108, 111, 99, 46, 67, 79,
        68, 69, 3, 1, 0, 4, 0])]

/-- The call becomes one of the stub. -/
theorem link_weaklyCalling_stub :
    ∃ (program : Program) (contents : SectionId → Option Bytes) (output : Bytes) (id : SymbolId)
      (index : Nat) (owner : ModuleId) (found : FunctionImport),
      Program.ofInputs weaklyCalling {} = .ok program ∧
      program.TrapStub weaklyCalling "f" id index owner found ∧
      program.Calls 0 ⟨.functionIndexLeb, 4, 0, 0⟩ 0 ∧ id = 0 ∧
      program.OperandBecomes output 0 ⟨.functionIndexLeb, 4, 0, 0⟩ index ∧
      program.BodyAt contents id trapBody := by
  have succeeds : (link weaklyCalling {}).isOk = true := by decide +kernel
  have facts : ((Program.ofInputs weaklyCalling {}).map fun program =>
      (decide (OnlyWeakly weaklyCalling program.modules "f"), program.symbols.lookup "f",
        (program.modules[0]?).map (·.slots), program.symbols.syntheticFunctions.length)) =
        .ok (true, some 0, some #[.symbol 0, .symbol 1], 1) := by decide +kernel
  obtain ⟨output, linked⟩ := exists_of_isOk succeeds
  obtain ⟨program, _, contents, decided, -, each, -⟩ := link_trapStubs linked
  rw [decided] at facts
  obtain ⟨weakly, facts⟩ := Prod.mk.inj (Except.ok.inj facts)
  obtain ⟨known, facts⟩ := Prod.mk.inj facts
  obtain ⟨slots, count⟩ := Prod.mk.inj facts
  obtain ⟨module, input, slots⟩ := Option.map_eq_some_iff.1 slots
  obtain ⟨id, index, owner, found, stub, emits, -⟩ :=
    each "f" (by decide) (of_decide_eq_true weakly)
  have same : id = 0 := Option.some.inj (stub.known.symm.trans known)
  have calls : program.Calls 0 ⟨.functionIndexLeb, 4, 0, 0⟩ 0 :=
    ⟨rfl, module, existing_eq_ok.2 input, by rw [slots]; rfl⟩
  exact ⟨program, contents, output, id, index, owner, found, decided, stub, calls, same,
    emits.operands 0 _ (same ▸ calls), emits.body (by rw [count]; decide)⟩

end StaticLink
