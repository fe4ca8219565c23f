import StaticLink.Program.Encoding
import StaticLink.Proofs.Inputs.Placement
import StaticLink.Proofs.Steps

/-!
# Modules that look the same to a link

A link looks at the bytes of a module only where the payload of a section or a data segment lies, and
at its list of sections only for the first one of a kind that is not custom.

* `ObjectModule.Agrees`: two modules with the same there, and in all other fields.
* `DataLayout.ofModules_agree`, `SymbolTable.complete_agree`, `Imports.ofSymbols_agree`: what is
  decided for modules that agree.
* `Program.functionIndex_agree` and so on: what a symbol, a table slot or an operand becomes.
-/

namespace StaticLink

/-! ## Lists side by side -/

section

variable {α β γ : Type} {R : α → β → Prop} {items : List α} {others : List β}

theorem map_of_forall₂ {f : α → γ} {g : β → γ} (all : List.Forall₂ R items others)
    (same : ∀ item other, R item other → g other = f item) : others.map g = items.map f := by
  induction all with
  | nil => rfl
  | cons one _ ih => rw [List.map_cons, List.map_cons, ih, same _ _ one]

theorem flatMap_of_forall₂ {f : α → List γ} {g : β → List γ} (all : List.Forall₂ R items others)
    (same : ∀ item other, R item other → g other = f item) :
    others.flatMap g = items.flatMap f := by
  rw [List.flatMap_def, List.flatMap_def, map_of_forall₂ all same]

theorem mapM_of_forall₂ {f : α → Except Error γ} {g : β → Except Error γ}
    (all : List.Forall₂ R items others) (same : ∀ item other, R item other → g other = f item) :
    others.mapM g = items.mapM f := by
  induction all with
  | nil => rfl
  | cons one _ ih => rw [List.mapM_cons, List.mapM_cons, ih, same _ _ one]

theorem foldlM_of_forall₂ {f : γ → α → Except Error γ} {g : γ → β → Except Error γ}
    (all : List.Forall₂ R items others)
    (same : ∀ before item other, R item other → g before other = f before item) (start : γ) :
    others.foldlM g start = items.foldlM f start := by
  induction all generalizing start with
  | nil => rfl
  | cons one _ ih =>
    rw [List.foldlM_cons, List.foldlM_cons, same _ _ _ one]
    exact bind_congr ih

/-- The items of two lists with their positions. -/
theorem forall₂_zipIdx (all : List.Forall₂ R items others) :
    List.Forall₂ (fun item other => R item.1 other.1 ∧ other.2 = item.2 ∧
      items[item.2]? = some item.1) items.zipIdx others.zipIdx := by
  rw [List.forall₂_iff_get]
  refine ⟨by rw [List.length_zipIdx, List.length_zipIdx, all.length_eq], ?_⟩
  intro i small small'
  rw [List.length_zipIdx] at small small'
  rw [List.get_eq_getElem, List.get_eq_getElem, List.getElem_zipIdx, List.getElem_zipIdx]
  refine ⟨all.get small small', rfl, ?_⟩
  rw [Nat.zero_add]
  exact List.getElem?_eq_getElem small

end

/-! ## Modules that agree -/

/-- The second module has the bytes and sections of the first one where a link looks at them, and all
other fields. -/
structure ObjectModule.Agrees (one two : ObjectModule) : Prop where
  rest : two = { one with bytes := two.bytes, sections := two.sections }
  sections : ∀ id, id ≠ .custom → two.section? id = one.section? id
  payloads : ∀ id found, id ≠ .custom → one.section? id = some found →
    two.slice found.header.payload = one.slice found.header.payload
  data : ∀ segment ∈ one.dataSegments, two.slice segment.data = one.slice segment.data

namespace ObjectModule

variable {one two : ObjectModule}

theorem Agrees.refl (module : ObjectModule) : module.Agrees module :=
  ⟨rfl, fun _ _ => rfl, fun _ _ _ _ => rfl, fun _ _ => rfl⟩

/-- What is read from neither the bytes nor the sections is the same. -/
theorem Agrees.field {α : Type} (agrees : one.Agrees two) (get : ObjectModule → α)
    (same : ∀ (module : ObjectModule) (bytes : Bytes) (sections : Array Section),
      get { module with bytes, sections } = get module) : get two = get one := by
  rw [agrees.rest]
  exact same one two.bytes two.sections

theorem Agrees.declaredCount (agrees : one.Agrees two) {id : SectionId} (known : id ≠ .custom) :
    two.declaredCount id = one.declaredCount id := by
  rw [ObjectModule.declaredCount, agrees.sections id known, ObjectModule.declaredCount]

theorem Agrees.slot (agrees : one.Agrees two) (index : UInt32) : two.slot index = one.slot index :=
  agrees.field (·.slot index) fun _ _ _ => rfl

theorem Agrees.functionImport (agrees : one.Agrees two) (position : UInt32) :
    two.functionImport position = one.functionImport position :=
  agrees.field (·.functionImport position) fun _ _ _ => rfl

theorem Agrees.globalImport (agrees : one.Agrees two) (position : UInt32) :
    two.globalImport position = one.globalImport position :=
  agrees.field (·.globalImport position) fun _ _ _ => rfl

theorem Agrees.name (agrees : one.Agrees two) : two.name = one.name :=
  agrees.field (·.name) fun _ _ _ => rfl

theorem Agrees.functionImports (agrees : one.Agrees two) :
    two.functionImports = one.functionImports :=
  agrees.field (·.functionImports) fun _ _ _ => rfl

theorem Agrees.functions (agrees : one.Agrees two) : two.functions = one.functions :=
  agrees.field (·.functions) fun _ _ _ => rfl

theorem Agrees.elementSegments (agrees : one.Agrees two) :
    two.elementSegments = one.elementSegments :=
  agrees.field (·.elementSegments) fun _ _ _ => rfl

theorem Agrees.dataSegments (agrees : one.Agrees two) : two.dataSegments = one.dataSegments :=
  agrees.field (·.dataSegments) fun _ _ _ => rfl

theorem Agrees.initializers (agrees : one.Agrees two) : two.initializers = one.initializers :=
  agrees.field (·.initializers) fun _ _ _ => rfl

theorem Agrees.checkDataRelocations (agrees : one.Agrees two) :
    two.checkDataRelocations = one.checkDataRelocations := by
  have stray : two.strayRelocation? = one.strayRelocation? := by
    unfold strayRelocation?
    rw [agrees.sections .data (by decide), agrees.dataSegments]
  rw [ObjectModule.checkDataRelocations, stray, ObjectModule.checkDataRelocations]

end ObjectModule

variable {modules others : List ObjectModule} {owner : ModuleId}

section

variable (alike : List.Forall₂ ObjectModule.Agrees modules others)
include alike

theorem countAll_agree {count : ObjectModule → Nat}
    (same : ∀ one two, ObjectModule.Agrees one two → count two = count one) :
    countAll count others = countAll count modules := by
  induction alike with
  | nil => rfl
  | cons agrees _ ih => rw [countAll, countAll, ih, same _ _ agrees]

theorem countBefore_agree {count : ObjectModule → Nat}
    (same : ∀ one two, ObjectModule.Agrees one two → count two = count one) (owner : ModuleId) :
    countBefore count others owner = countBefore count modules owner :=
  countAll_agree (List.forall₂_take owner alike) same

/-- What is done with one of the modules. -/
theorem bind_inputAt_agree {α : Type} {next next' : ObjectModule → Except Error α}
    (same : ∀ one two, modules[owner]? = some one → one.Agrees two → next' two = next one) :
    (inputAt others owner >>= next') = (inputAt modules owner >>= next) := by
  unfold inputAt
  rcases here : modules[owner]? with _ | one
  · have there : others[owner]? = none := by
      rw [List.getElem?_eq_none_iff] at here ⊢
      rw [← alike.length_eq]
      exact here
    rw [there]
    rfl
  · obtain ⟨two, there, agrees⟩ := exists_of_forall₂ alike here
    rw [there]
    exact same one two here agrees

/-! ## What is decided for modules -/

theorem DataLayout.merge_agree : DataLayout.merge others = DataLayout.merge modules := by
  apply foldlM_of_forall₂ (forall₂_zipIdx alike)
  rintro segments ⟨one, owner⟩ ⟨two, place⟩ ⟨agrees, rfl, -⟩
  dsimp only
  unfold insertModule
  rw [agrees.checkDataRelocations, agrees.dataSegments]

theorem DataLayout.ofModules_agree (base : Nat) :
    DataLayout.ofModules others base = DataLayout.ofModules modules base := by
  unfold ofModules
  rw [merge_agree alike]

theorem SymbolTable.initializerFunctions_agree (table : SymbolTable) :
    table.initializerFunctions others = table.initializerFunctions modules := by
  have each (one two : ObjectModule) (agrees : one.Agrees two) (entry : Initializer) :
      table.initializerFunction two entry = table.initializerFunction one entry := by
    unfold initializerFunction
    rw [agrees.slot, agrees.name]
  -- Each initializer stands beside itself, in modules that agree.
  have entries : List.Forall₂ (fun first second => ObjectModule.Agrees first.1 second.1 ∧
      second.2 = first.2)
      (modules.flatMap fun module => module.initializers.toList.map (module, ·))
      (others.flatMap fun module => module.initializers.toList.map (module, ·)) := by
    induction alike with
    | nil => exact .nil
    | cons agrees _ ih =>
      rw [List.flatMap_cons, List.flatMap_cons, agrees.initializers]
      refine List.rel_append ?_ ih
      rw [List.forall₂_map_left_iff, List.forall₂_map_right_iff, List.forall₂_same]
      exact fun _ _ => ⟨agrees, rfl⟩
  apply mapM_of_forall₂ entries
  rintro ⟨one, entry⟩ ⟨two, other⟩ ⟨agrees, rfl⟩
  dsimp only
  rw [each one two agrees]

theorem SymbolTable.complete_agree (table : SymbolTable) (layout : DataLayout) (stackTop : Nat) :
    table.complete others layout stackTop = table.complete modules layout stackTop := by
  unfold complete supplyFunctions supplyConstructorCaller
  rw [table.initializerFunctions_agree alike]

theorem typeBase_agree (symbols : SymbolTable) (owner : ModuleId) :
    typeBase others symbols owner = typeBase modules symbols owner := by
  unfold typeBase
  rw [countBefore_agree alike fun _ _ agrees => agrees.declaredCount (by decide)]

theorem typeCount_agree (symbols : SymbolTable) :
    typeCount others symbols = typeCount modules symbols := by
  unfold typeCount
  rw [countAll_agree alike fun _ _ agrees => agrees.declaredCount (by decide)]

theorem Imports.ofFunction_agree (symbols : SymbolTable) (owner : ModuleId) (position : UInt32) :
    Imports.ofFunction others symbols owner position =
      Imports.ofFunction modules symbols owner position := by
  unfold ofFunction
  rw [typeBase_agree alike]
  apply bind_inputAt_agree alike
  intro one two _ agrees
  rw [agrees.functionImport]

theorem Imports.ofGlobal_agree (owner : ModuleId) (position : UInt32) :
    Imports.ofGlobal others owner position = Imports.ofGlobal modules owner position := by
  unfold ofGlobal
  apply bind_inputAt_agree alike
  intro one two _ agrees
  rw [agrees.globalImport]

theorem Imports.ofSymbols_agree (symbols : SymbolTable) :
    Imports.ofSymbols others symbols = Imports.ofSymbols modules symbols := by
  unfold ofSymbols
  simp only [ofFunction_agree alike, ofGlobal_agree alike]

end

namespace Program

/-- The program with these modules instead. -/
def withModules (program : Program) (modules : List ObjectModule) : Program :=
  { program with modules }

variable {program : Program} (alike : List.Forall₂ ObjectModule.Agrees program.modules others)
include alike

/-! ## Where each input begins -/

theorem functionBase_agree (owner : ModuleId) :
    (program.withModules others).functionBase owner = program.functionBase owner :=
  congrArg (_ + ·) (countBefore_agree alike
    (fun _ _ agrees => agrees.field (·.functions.size) fun _ _ _ => rfl) owner)

theorem globalBase_agree (owner : ModuleId) :
    (program.withModules others).globalBase owner = program.globalBase owner :=
  congrArg (_ + ·) (countBefore_agree alike
    (fun _ _ agrees => agrees.field (·.globals.size) fun _ _ _ => rfl) owner)

theorem elementBase_agree (owner : ModuleId) :
    (program.withModules others).elementBase owner = program.elementBase owner :=
  countBefore_agree alike (fun _ _ agrees => agrees.field (·.elementCount) fun _ _ _ => rfl) owner

theorem elementCount_agree : (program.withModules others).elementCount = program.elementCount :=
  countAll_agree alike fun _ _ agrees => agrees.field (·.elementCount) fun _ _ _ => rfl

theorem bind_input_agree {α : Type} {next next' : ObjectModule → Except Error α}
    (same : ∀ one two, program.modules[owner]? = some one → one.Agrees two → next' two = next one) :
    ((program.withModules others).input owner >>= next') = (program.input owner >>= next) :=
  bind_inputAt_agree alike same

/-! ## What symbols become -/

theorem functionIndex_agree (id : SymbolId) :
    (program.withModules others).functionIndex id = program.functionIndex id := by
  refine bind_congr fun symbol => ?_
  obtain ⟨name, flags, context, target⟩ := symbol
  rcases target with (⟨owner, position⟩ | ⟨owner, position⟩ | _) | _ | _
  · refine bind_input_agree alike fun _ _ _ _ => ?_
    rw [functionBase_agree alike]
  · refine ite_congr rfl (fun _ => rfl) fun _ => ?_
    refine bind_input_agree alike fun one two _ agrees => ?_
    rw [agrees.functionImport]
    rfl
  all_goals rfl

theorem globalIndex_agree (id : SymbolId) :
    (program.withModules others).globalIndex id = program.globalIndex id := by
  refine bind_congr fun symbol => ?_
  obtain ⟨name, flags, context, target⟩ := symbol
  rcases target with _ | (⟨owner, position⟩ | ⟨owner, position⟩ | _) | _
  · rfl
  · refine bind_input_agree alike fun _ _ _ _ => ?_
    rw [globalBase_agree alike]
  · refine bind_input_agree alike fun one two _ agrees => ?_
    rw [agrees.globalImport]
    rfl
  all_goals rfl

/-! ## The table -/

theorem inputFunctionIndex_agree (owner : ModuleId) (index : UInt32) :
    (program.withModules others).inputFunctionIndex owner index =
      program.inputFunctionIndex owner index := by
  unfold inputFunctionIndex
  apply bind_input_agree alike
  intro one two _ agrees
  simp only [agrees.functionImports, agrees.functionImport, functionBase_agree alike,
    functionIndex_agree alike]

theorem tableSlot_agree (owner : ModuleId) (slot : Nat) :
    (program.withModules others).tableSlot owner slot = program.tableSlot owner slot := by
  unfold tableSlot
  apply bind_input_agree alike
  intro one two _ agrees
  rw [agrees.elementSegments, elementBase_agree alike]

/-! ## Relocation -/

theorem symbolValue_agree (owner : ModuleId) (relocation : Relocation) (id : SymbolId)
    (current : Int) : (program.withModules others).symbolValue owner relocation id current =
      program.symbolValue owner relocation id current := by
  -- A slot that no segment covers is refused with the name of the module.
  have refusal (slot : Nat) : ((program.withModules others).input owner >>= fun module =>
      (throw (.unsupported (.slotOutsideElements slot module.name)) : Except Error Int)) =
        (program.input owner >>= fun module =>
          throw (.unsupported (.slotOutsideElements slot module.name))) := by
    apply bind_input_agree alike
    intro one two _ agrees
    rw [agrees.name]
  unfold symbolValue
  simp only [functionIndex_agree alike, globalIndex_agree alike, tableSlot_agree alike, refusal]
  rfl

theorem operandValue_agree (owner : ModuleId) (relocation : Relocation) (current : Int) :
    (program.withModules others).operandValue owner relocation current =
      program.operandValue owner relocation current := by
  have base : (program.withModules others).typeBase owner = program.typeBase owner :=
    typeBase_agree alike program.symbols owner
  unfold operandValue
  rw [base]
  refine congrArg (ite _ _) ?_
  apply bind_input_agree alike
  intro one two _ agrees
  rw [agrees.slot]
  simp only [symbolValue_agree alike]

theorem relocateOperand_agree (owner : ModuleId) (relocation : Relocation)
    (position start : Nat) (bytes : Bytes) :
    (program.withModules others).relocateOperand owner relocation position start bytes =
      program.relocateOperand owner relocation position start bytes := by
  unfold relocateOperand
  simp only [operandValue_agree alike]

/-- A copied range is the same where the modules have the same bytes in it. -/
theorem relocate_agree (found : Section) {range : Span}
    (same : ∀ one two, program.modules[owner]? = some one → one.Agrees two →
      two.slice range = one.slice range) :
    (program.withModules others).relocate owner found range =
      program.relocate owner found range := by
  unfold relocate
  simp only [relocateOperand_agree alike]
  apply bind_input_agree alike
  intro one two here agrees
  rw [same one two here agrees]

end Program

end StaticLink
