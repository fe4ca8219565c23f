import Mathlib.Algebra.Order.BigOperators.Group.List
import Mathlib.Algebra.Order.Group.Nat
import StaticLink.Program.Encoding
import StaticLink.Proofs.Program.Functions
import StaticLink.Proofs.Relocation.Demand

/-!
# Numbers that are added up

An index of the linked module is the number of what comes before an input and an index of the input.
Some of the latter were checked when the input was read. Others are taken as they are: the types of
functions, the functions of table entries and of names, and how many entries a section declares if
they are not looked into.

* `ObjectModule.InRange`: an input states nothing that is out of its own bounds.
* `Program.Sum`: the numbers that linking adds up, each with what nothing checks.
* `Program.Bounded.few_of_sum`: such a number is no more than inputs have things, if the input that
  states it is in range.
* `Program.AddsUp`: the indices that linking writes are such numbers, and words.
-/

namespace StaticLink

/-! ## What inputs state -/

namespace ObjectModule

/-- The module states `index` as that of one of its types: of a function, of an import or in a
relocation. -/
def StatesType (module : ObjectModule) (index : UInt32) : Prop :=
  index ∈ module.functions ∨ (∃ found ∈ module.functionImports, found.typeIndex = index) ∨
    ∃ found ∈ module.sections, ∃ relocation ∈ found.relocations,
      relocation.kind = .typeIndexLeb ∧ relocation.index = index

/-- The module states `index` as that of one of its functions: of a table entry or of a name. -/
def StatesFunction (module : ObjectModule) (index : UInt32) : Prop :=
  (∃ segment ∈ module.elementSegments, index ∈ segment.functions) ∨
    ∃ name, (index, name) ∈ module.functionNames

/-- The module states no type and no function that it does not have, and what it declares of types
and bodies is no more than there are bytes for them. -/
structure InRange (module : ObjectModule) : Prop where
  types : ∀ found ∈ module.section? .types,
    module.declaredCount .types ≤ found.header.payload.size
  code : ∀ found ∈ module.section? .code, module.declaredCount .code ≤ found.header.payload.size
  type : ∀ index, module.StatesType index → index.toNat < module.declaredCount .types
  function : ∀ index, module.StatesFunction index →
    index.toNat < module.functionImports.size + module.functions.size

end ObjectModule

namespace Program

/-- No section with this id declares more entries than it has bytes. -/
def Declares (program : Program) (id : SectionId) : Prop :=
  ∀ module ∈ program.modules, ∀ found ∈ module.section? id,
    module.declaredCount id ≤ found.header.payload.size

instance (program : Program) (id : SectionId) : Decidable (program.Declares id) :=
  inferInstanceAs (Decidable (∀ module ∈ program.modules, ∀ found ∈ module.section? id,
    module.declaredCount id ≤ found.header.payload.size))

/-- The numbers that linking adds up, each with what it takes for granted. -/
inductive Sum (program : Program) : (number : Nat) → (granted : Prop) → Prop
  /-- The first type, and the only table. -/
  | first : Sum program 0 True
  /-- The types before those of an input. -/
  | types (owner : ModuleId) : Sum program (program.typeBase owner) (program.Declares .types)
  | typeCount : Sum program program.typeCount (program.Declares .types)
  /-- A type of an input. -/
  | typeIndex {owner : ModuleId} {module : ObjectModule} {index : UInt32}
      (input : program.modules[owner]? = some module) (stated : module.StatesType index) :
    Sum program (program.typeBase owner + index.toNat)
      (program.Declares .types ∧ index.toNat < module.declaredCount .types)
  /-- The bodies that the inputs before an input declare. -/
  | bodies (owner : ModuleId) :
    Sum program (countBefore (·.declaredCount .code) program.modules owner) (program.Declares .code)
  | codeCount : Sum program program.codeCount (program.Declares .code)
  /-- The functions before those of an input. -/
  | functions (owner : ModuleId) : Sum program (program.functionBase owner) True
  | functionCount : Sum program program.functionCount True
  /-- A function of an input. -/
  | ownFunction {owner : ModuleId} {module : ObjectModule} {index : UInt32}
      (input : program.modules[owner]? = some module) (stated : module.StatesFunction index)
      (own : module.functionImports.size ≤ index.toNat) :
    Sum program (program.functionBase owner + (index.toNat - module.functionImports.size))
      (index.toNat - module.functionImports.size < module.functions.size)
  /-- The function that a symbol stands for. -/
  | symbolFunction {id : SymbolId} {index : Nat} (here : program.functionIndex id = .ok index) :
    Sum program index True
  /-- The globals before those of an input. -/
  | globals (owner : ModuleId) : Sum program (program.globalBase owner) True
  | globalCount : Sum program program.globalCount True
  /-- The global that a symbol stands for. -/
  | symbolGlobal {id : SymbolId} {index : Nat} (here : program.globalIndex id = .ok index) :
    Sum program index True
  | importCount : Sum program program.importCount True
  /-- The table entries before those of an input. -/
  | elements (owner : ModuleId) : Sum program (firstSlot + program.elementBase owner) True
  | elementCount : Sum program (firstSlot + program.elementCount) True
  /-- A slot of the table. -/
  | slot {owner : ModuleId} {slot position : Nat}
      (here : program.tableSlot owner slot = .ok (some position)) : Sum program position True

/-- The number is one that linking adds up, and either what it takes for granted holds or it was
seen to be a word. -/
def Summed (program : Program) (number : Nat) : Prop :=
  ∃ granted, program.Sum number granted ∧ (granted ∨ number < wordLimit)

/-- The counts and indices that linking writes, and the bases that they come of, are numbers that it
adds up. -/
structure AddsUp (program : Program) : Prop where
  typeCount : program.Summed program.typeCount
  typeBase : ∀ owner, program.Summed (program.typeBase owner)
  codeCount : ∀ interface output, program.encode interface = .ok output →
    program.Summed program.codeCount
  bodies : ∀ interface output, program.encode interface = .ok output →
    ∀ owner, program.Summed (countBefore (·.declaredCount .code) program.modules owner)
  types : ∀ types, program.functionTypes = .ok types → ∀ type ∈ types, program.Summed type
  imports : ∀ entry ∈ program.imports.functions, program.Summed entry.2
  elements : ∀ functions, program.tableFunctions = .ok functions →
    ∀ index ∈ functions, program.Summed index
  exports : ∀ names exports, program.exports names = .ok exports →
    ∀ entry ∈ exports, program.Summed entry.2.2
  start : ∀ index, program.start = .ok (some index) → program.Summed index
  names : ∀ names, program.functionNames = .ok names →
    ∀ entry ∈ names, ∃ number, program.Summed number ∧ entry.1 = UInt32.ofNat number
  operands : ∀ owner module found relocation current value,
    program.modules[owner]? = some module → found ∈ module.sections →
    relocation ∈ found.relocations → relocation.kind.isMemoryAddress = false →
    program.operandValue owner relocation current = .ok value →
      ∃ number : Nat, program.Summed number ∧ value = number

variable {inputs : List (String × Bytes)} {options : Options} {program : Program} {id : SymbolId}
  {owner : ModuleId} {module : ObjectModule} {modules : List ObjectModule}
  {index number position slot : Nat} {granted : Prop}

/-! ## What sections declare -/

theorem le_unread {section' : SectionId} (unread : section' = .types ∨ section' = .code)
    (declares : ∀ found ∈ module.section? section',
      module.declaredCount section' ≤ found.header.payload.size) :
    module.declaredCount section' ≤ module.unread := by
  rcases first : module.section? section' with _ | found
  · rw [ObjectModule.declaredCount, first]
    exact Nat.zero_le _
  · -- The section is one of those of which all bytes are counted.
    have listed : found ∈ module.sections.toList :=
      Array.mem_toList_iff.2 (Array.mem_of_find?_eq_some first)
    have same : found.header.id = section' := by
      simpa using Array.find?_some first
    have size : found.header.unread = found.header.payload.size := by
      rw [SectionHeader.unread, same, if_pos unread]
    refine Nat.le_trans (declares found first) ?_
    rw [← size]
    exact List.le_sum_of_mem (List.mem_map_of_mem listed)

theorem countAll_declared_le {section' : SectionId} (unread : section' = .types ∨ section' = .code)
    (declares : ∀ module ∈ modules, ∀ found ∈ module.section? section',
      module.declaredCount section' ≤ found.header.payload.size) :
    countAll (·.declaredCount section') modules ≤ countAll (·.weight) modules :=
  countAll_le fun module member =>
    Nat.le_trans (le_unread unread (declares module member)) module.unread_le_weight

theorem typeCount_le (symbols : SymbolTable) (declares : ∀ module ∈ modules,
      ∀ found ∈ module.section? .types, module.declaredCount .types ≤ found.header.payload.size) :
    StaticLink.typeCount modules symbols ≤ countAll (·.weight) modules + 1 := by
  have declared := countAll_declared_le (.inl rfl) declares
  unfold StaticLink.typeCount SymbolTable.leadingTypes
  split <;> omega

/-- A type that an input declares comes before the end of the types. -/
theorem typeBase_add_lt (symbols : SymbolTable) (input : modules[owner]? = some module)
    (small : position < module.declaredCount .types) :
    StaticLink.typeBase modules symbols owner + position < StaticLink.typeCount modules symbols := by
  have within := countBefore_add_le_countAll (·.declaredCount .types) input
  unfold StaticLink.typeBase StaticLink.typeCount
  omega

/-- Where all types are counted, so are those before an input. -/
theorem typeBase_le (program : Program) (owner : ModuleId) :
    program.typeBase owner ≤ program.typeCount :=
  Nat.add_le_add_left (countBefore_le_countAll (·.declaredCount .types) program.modules owner) _

theorem bodies_le_codeCount (program : Program) (owner : ModuleId) :
    countBefore (·.declaredCount .code) program.modules owner ≤ program.codeCount :=
  Nat.le_add_left_of_le (countBefore_le_countAll (·.declaredCount .code) program.modules owner)

/-! ## Bounds -/

/-- The number is no more than inputs have things, together with what the linker adds. -/
def Few (program : Program) (number : Nat) : Prop :=
  number ≤ countAll (·.weight) program.modules + program.symbols.linked + 1

/-- What is known of a program for the bounds. -/
structure Bounded (program : Program) : Prop where
  wellFormed : program.symbols.WellFormed
  targets : ∀ id symbol, program.symbols.get id = .ok symbol → symbol.target.Within program.modules
  functions : program.imports.functions.length ≤ program.symbols.strongFunctions.length
  globals : program.imports.globals.length ≤ program.symbols.strongGlobals.length

theorem bounded_of_ofInputs (h : ofInputs inputs options = .ok program) : program.Bounded := by
  have sound := sound_of_ofInputs h
  obtain ⟨session, -, decided⟩ := decided_of_ofInputs h
  obtain ⟨-, functions, globals⟩ := imports_facts decided.imports
  exact ⟨sound.wellFormed, fun _ _ => sound.target_within, functions, globals⟩

theorem few_of_types (number_le : number ≤ program.typeCount) (declares : program.Declares .types) :
    program.Few number := by
  have types := Nat.le_trans number_le (typeCount_le program.symbols declares)
  unfold Few
  omega

/-- The imports and what an input or the linker defines are few. -/
theorem Bounded.few_of_functions (bounded : program.Bounded)
    (number_le : number ≤ program.imports.functions.length + program.functionCount) :
    program.Few number :=
  Nat.le_succ_of_le (Nat.le_trans number_le
    (functionCount_le bounded.wellFormed bounded.functions))

theorem Bounded.few_of_globals (bounded : program.Bounded)
    (number_le : number ≤ program.imports.globals.length +
      (program.symbols.syntheticGlobals.length + countAll (·.globals.size) program.modules)) :
    program.Few number := by
  have linked := SymbolTable.strongGlobals_add_synthetic_le bounded.wellFormed
  have imports := bounded.globals
  have own : countAll (·.globals.size) program.modules ≤ countAll (·.weight) program.modules :=
    countAll_le fun module _ => module.globals_size_le_weight
  unfold Few SymbolTable.linked
  omega

theorem Bounded.few_of_code (bounded : program.Bounded) (number_le : number ≤ program.codeCount)
    (declares : program.Declares .code) : program.Few number := by
  have declared := countAll_declared_le (.inr rfl) declares
  have linked := SymbolTable.strongFunctions_add_synthetic_le bounded.wellFormed
  have supplied := Nat.mod_le program.symbols.syntheticFunctions.length wordLimit
  unfold Few SymbolTable.linked
  unfold codeCount at number_le
  omega

theorem few_of_elements (number_le : number ≤ firstSlot + program.elementCount) :
    program.Few number := by
  have own : countAll (·.elementCount) program.modules ≤ countAll (·.weight) program.modules :=
    countAll_le fun module _ => module.elementCount_le_weight
  unfold Few
  unfold firstSlot elementCount at number_le
  omega

/-! ## Indices that were checked -/

theorem functionBase_add_le (input : program.modules[owner]? = some module)
    (small : position < module.functions.size) : program.functionBase owner + position ≤
      program.imports.functions.length + program.functionCount := by
  have within := countBefore_add_le_countAll (·.functions.size) input
  unfold functionBase syntheticFunctionBase functionCount
  omega

theorem functionBase_le (program : Program) (owner : ModuleId) :
    program.functionBase owner ≤ program.imports.functions.length + program.functionCount := by
  have within := countBefore_le_countAll (·.functions.size) program.modules owner
  unfold functionBase syntheticFunctionBase functionCount
  omega

theorem Bounded.functionIndex_le (bounded : program.Bounded)
    (h : program.functionIndex id = .ok index) :
    index ≤ program.imports.functions.length + program.functionCount := by
  cases functionAt_of_functionIndex h with
  | @defined symbol owner place _ stands target _ =>
    -- The index of the symbol was checked when its entry was read.
    obtain ⟨module, input, has⟩ := bounded.targets id symbol stands owner (by rw [target]; rfl)
    rw [target] at has
    exact functionBase_add_le input has
  | imported _ _ _ _ _ here =>
    obtain ⟨small, -⟩ := List.findIdx?_eq_some_iff_getElem.1 here
    omega
  | supplied _ _ here =>
    obtain ⟨small, -⟩ := List.idxOf?_eq_some_iff.1 here
    unfold syntheticFunctionBase functionCount
    omega

theorem globalBase_le (program : Program) (owner : ModuleId) : program.globalBase owner ≤
    program.imports.globals.length +
      (program.symbols.syntheticGlobals.length + countAll (·.globals.size) program.modules) := by
  have within := countBefore_le_countAll (·.globals.size) program.modules owner
  unfold globalBase syntheticGlobalBase
  omega

theorem Bounded.globalIndex_le (bounded : program.Bounded)
    (h : program.globalIndex id = .ok index) : index ≤ program.imports.globals.length +
      (program.symbols.syntheticGlobals.length + countAll (·.globals.size) program.modules) := by
  obtain ⟨symbol, stands, h⟩ := bind_eq_ok.1 h
  split at h
  · next owner place target =>
    obtain ⟨_, -, rfl⟩ := return_eq_ok.1 h
    obtain ⟨module, input, has⟩ := bounded.targets id symbol stands owner (by rw [target]; rfl)
    rw [target] at has
    have small : place.toNat < module.globals.size := has
    have within := countBefore_add_le_countAll (·.globals.size) input
    unfold globalBase syntheticGlobalBase
    omega
  · next owner place target =>
    obtain ⟨_, -, h⟩ := bind_eq_ok.1 h
    obtain ⟨found, -, h⟩ := bind_eq_ok.1 h
    have here := required_eq_ok h
    split at here
    · cases here
    · obtain ⟨small, -⟩ := List.findIdx?_eq_some_iff_getElem.1 here
      omega
  · obtain ⟨place, here, rfl⟩ := return_eq_ok.1 h
    obtain ⟨small, -⟩ := List.idxOf?_eq_some_iff.1 (required_eq_ok here)
    unfold syntheticGlobalBase
    omega
  · cases h

theorem elementBase_le (program : Program) (owner : ModuleId) :
    program.elementBase owner ≤ program.elementCount :=
  countBefore_le_countAll (·.elementCount) program.modules owner

/-- Numbers are few where what they take for granted holds. -/
theorem Bounded.few_of_sum (bounded : program.Bounded) (sum : program.Sum number granted)
    (holds : granted) : program.Few number := by
  cases sum with
  | first => exact Nat.zero_le _
  | types owner => exact few_of_types (typeBase_le program owner) holds
  | typeCount => exact few_of_types (Nat.le_refl _) holds
  | typeIndex input stated =>
    obtain ⟨declares, small⟩ := holds
    exact few_of_types (Nat.le_of_lt (typeBase_add_lt program.symbols input small)) declares
  | bodies owner => exact bounded.few_of_code (bodies_le_codeCount program owner) holds
  | codeCount => exact bounded.few_of_code (Nat.le_refl _) holds
  | functions owner => exact bounded.few_of_functions (functionBase_le program owner)
  | functionCount => exact bounded.few_of_functions (Nat.le_add_left _ _)
  | ownFunction input stated own =>
    exact bounded.few_of_functions (functionBase_add_le input holds)
  | symbolFunction here => exact bounded.few_of_functions (bounded.functionIndex_le here)
  | globals owner => exact bounded.few_of_globals (globalBase_le program owner)
  | globalCount =>
    have synthetic : program.syntheticGlobals.length ≤ program.symbols.syntheticGlobals.length :=
      List.length_filterMap_le _ _
    refine bounded.few_of_globals ?_
    unfold globalCount
    omega
  | symbolGlobal here => exact bounded.few_of_globals (bounded.globalIndex_le here)
  | importCount =>
    have functions := SymbolTable.strongFunctions_add_synthetic_le bounded.wellFormed
    have globals := SymbolTable.strongGlobals_add_synthetic_le bounded.wellFormed
    have imports := bounded.functions
    have imports' := bounded.globals
    unfold Few importCount SymbolTable.linked
    omega
  | elements owner => exact few_of_elements (Nat.add_le_add_left (elementBase_le program owner) _)
  | elementCount => exact few_of_elements (Nat.le_refl _)
  | slot here =>
    exact few_of_elements (Nat.le_trans (tableSlot_range here).2 (Nat.le_add_left _ _))

/-! ## Numbers that are no words -/

/-- If there are more types than a word can count, or one with a number that is no word, then `R`
holds. -/
structure ExplainsTypes (modules : List ObjectModule) (symbols : SymbolTable) (R : Prop) : Prop where
  count : wordLimit ≤ StaticLink.typeCount modules symbols → R
  index : ∀ owner module index, modules[owner]? = some module → module.StatesType index →
    wordLimit ≤ StaticLink.typeBase modules symbols owner + index.toNat → R

/-- If a number that linking adds up is no word, then `R` holds. -/
def Explains (program : Program) (R : Prop) : Prop :=
  ∀ number granted, program.Sum number granted → wordLimit ≤ number → R

theorem Explains.types {R : Prop} (explains : program.Explains R) :
    ExplainsTypes program.modules program.symbols R where
  count := explains _ _ .typeCount
  index _ _ _ input stated := explains _ _ (.typeIndex input stated)

/-- Where every input is in range, all that is taken for granted holds. -/
theorem Sum.granted_of_inRange (sum : program.Sum number granted)
    (inRange : ∀ module ∈ program.modules, module.InRange) : granted := by
  have types : program.Declares .types := fun module member => (inRange module member).types
  have code : program.Declares .code := fun module member => (inRange module member).code
  cases sum with
  | types | typeCount => exact types
  | bodies | codeCount => exact code
  | @typeIndex owner module index input stated =>
    exact ⟨types, (inRange module (List.mem_of_getElem? input)).type index stated⟩
  | @ownFunction owner module index input stated own =>
    have small := (inRange module (List.mem_of_getElem? input)).function index stated
    omega
  | _ => trivial

/-- For few inputs, a number that is no word comes of an input that is out of range. -/
theorem Bounded.explains (bounded : program.Bounded) (measured : program.Measured inputs)
    (small : totalSize inputs < wordLimit) :
    program.Explains (∃ module ∈ program.modules, ¬ module.InRange) := by
  intro number granted sum large
  by_contra inside
  push Not at inside
  have few := bounded.few_of_sum sum (sum.granted_of_inRange inside)
  exact Nat.not_lt_of_le large (measured.lt_wordLimit small few)

/-- The same of types, as soon as the inputs are read. -/
theorem explainsTypes_of_measured {session : Session} (measured : session.Measured inputs)
    (small : totalSize inputs < wordLimit) (symbols : SymbolTable) :
    ExplainsTypes session.modules symbols (∃ module ∈ session.modules, ¬ module.InRange) := by
  by_cases inside : ∀ module ∈ session.modules, module.InRange
  · have few := typeCount_le symbols fun module member => (inside module member).types
    have limit := measured.lt_wordLimit small few
    refine ⟨fun large => absurd limit (Nat.not_lt_of_le large), ?_⟩
    intro owner module index input stated large
    have declared := (inside module (List.mem_of_getElem? input)).type index stated
    have within := typeBase_add_lt symbols input declared
    exact absurd (Nat.lt_trans within limit) (Nat.not_lt_of_le large)
  · push Not at inside
    exact ⟨fun _ => inside, fun _ _ _ _ _ _ => inside⟩

/-! ## What linking writes -/

theorem Summed.of_granted (sum : program.Sum number True) : program.Summed number :=
  ⟨True, sum, .inl trivial⟩

/-- Nothing is written where the bodies cannot be counted. -/
theorem codeCount_lt_of_encode {interface : Interface} {output : Bytes}
    (h : program.encode interface = .ok output) : program.codeCount < wordLimit := by
  obtain ⟨_, counted, -⟩ := bind_eq_ok.1 h
  exact (inWord_eq_ok.1 counted).1

theorem summed_of_ofFunction {place : UInt32} {entry : ImportName × Nat}
    (h : Imports.ofFunction program.modules program.symbols owner place = .ok entry) :
    program.Summed entry.2 := by
  obtain ⟨module, found, input, here, small, rfl⟩ := exists_of_ofFunction h
  have listed : found ∈ module.functionImports := Array.mem_of_getElem? (existing_eq_ok.1 here)
  exact ⟨_, .typeIndex (existing_eq_ok.1 input) (.inr (.inl ⟨found, listed, rfl⟩)), .inr small⟩

theorem summed_of_imports
    (h : Imports.ofSymbols program.modules program.symbols = .ok program.imports)
    {entry : ImportName × Nat} (member : entry ∈ program.imports.functions) :
    program.Summed entry.2 := by
  obtain ⟨functions, each, h⟩ := bind_eq_ok.1 h
  obtain ⟨globals, -, same⟩ := return_eq_ok.1 h
  rw [← same] at member
  obtain ⟨place, here⟩ := List.mem_iff_getElem?.1 ((firstOfKeys_sublist functions).subset member)
  obtain ⟨_, -, one⟩ := exists_item_of_mapM_eq_ok each here
  exact summed_of_ofFunction one

theorem summed_of_functionTypes {types : List Nat} (h : program.functionTypes = .ok types)
    {type : Nat} (member : type ∈ types) : program.Summed type := by
  obtain ⟨synthetic, copied, each, rfl, small, rfl⟩ := exists_of_functionTypes h
  rcases List.mem_append.1 member with supplied | copied
  · obtain ⟨place, here⟩ := List.mem_iff_getElem?.1 supplied
    obtain ⟨id, -, one⟩ := exists_item_of_mapM_eq_ok each here
    obtain ⟨symbol, -, one⟩ := bind_eq_ok.1 one
    split at one
    · obtain ⟨entry, found, rfl⟩ := return_eq_ok.1 one
      exact summed_of_ofFunction found
    · cases one
      exact .of_granted .first
  · obtain ⟨⟨module, owner⟩, listed, member⟩ := List.mem_flatMap.1 copied
    obtain ⟨index, stated, rfl⟩ := List.mem_map.1 member
    exact ⟨_, .typeIndex (List.mk_mem_zipIdx_iff_getElem?.1 listed)
      (.inl (Array.mem_toList_iff.1 stated)), .inr (small _ copied)⟩

theorem summed_of_tableFunctions {functions : List Nat} (h : program.tableFunctions = .ok functions)
    (member : index ∈ functions) : program.Summed index := by
  obtain ⟨place, here⟩ := List.mem_iff_getElem?.1 member
  obtain ⟨⟨owner, entry⟩, listed, one⟩ := exists_item_of_mapM_eq_ok h here
  obtain ⟨⟨module, _⟩, among, member⟩ := List.mem_flatMap.1 (List.mem_of_getElem? listed)
  obtain ⟨segment, filled, member⟩ := List.mem_flatMap.1 member
  obtain ⟨_, stated, same⟩ := List.mem_map.1 member
  cases same
  have input := List.mk_mem_zipIdx_iff_getElem?.1 among
  -- An import has the index of its symbol, and only the input's own functions are added up here.
  rcases inputFunctionIndex_eq_ok (existing_eq_ok.2 input) one with
    ⟨own, small, rfl⟩ | ⟨-, _, -, found⟩
  · exact ⟨_, .ownFunction input (.inl ⟨segment, Array.mem_toList_iff.1 filled, stated⟩) own,
      .inr small⟩
  · exact .of_granted (.symbolFunction found)

theorem summed_of_functionExport {name : String} {entry : String × ExternalKind × Nat}
    (h : program.functionExport name id = .ok entry) : program.Summed entry.2.2 := by
  obtain ⟨index, here, rfl⟩ := return_eq_ok.1 h
  exact .of_granted (.symbolFunction here)

theorem summed_of_exports {names : List String} {exports : List (String × ExternalKind × Nat)}
    (h : program.exports names = .ok exports) {entry : String × ExternalKind × Nat}
    (member : entry ∈ exports) : program.Summed entry.2.2 := by
  obtain ⟨entryPoint, one, h⟩ := bind_eq_ok.1 h
  obtain ⟨flagged, two, h⟩ := bind_eq_ok.1 h
  obtain ⟨requested, three, rfl⟩ := return_eq_ok.1 h
  have listed := (firstOfKeys_sublist _).subset member
  rcases List.mem_append.1 listed with listed | listed
  · rcases List.mem_append.1 listed with listed | listed
    · rcases List.mem_cons.1 listed with rfl | listed
      · exact .of_granted .first
      · obtain ⟨place, here⟩ := List.mem_iff_getElem?.1 listed
        obtain ⟨id, -, step⟩ := exists_item_of_mapM_eq_ok one here
        exact summed_of_functionExport step
    · obtain ⟨place, here⟩ := List.mem_iff_getElem?.1 listed
      obtain ⟨⟨id, symbol⟩, -, step⟩ := exists_item_of_mapM_eq_ok two here
      dsimp only at step
      split at step
      · obtain ⟨index, found, rfl⟩ := return_eq_ok.1 step
        exact .of_granted (.symbolGlobal found)
      · exact summed_of_functionExport step
  · obtain ⟨place, here⟩ := List.mem_iff_getElem?.1 listed
    obtain ⟨name, -, step⟩ := exists_item_of_mapM_eq_ok three here
    split at step
    · exact summed_of_functionExport step
    · cases step

theorem summed_of_start (h : program.start = .ok (some index)) : program.Summed index := by
  unfold start at h
  split at h
  · cases h
  · obtain ⟨symbol, -, h⟩ := bind_eq_ok.1 h
    split at h
    · obtain ⟨_, here, same⟩ := return_eq_ok.1 h
      cases same
      exact .of_granted (.symbolFunction here)
    · cases h

theorem summed_of_functionNames {names : List (UInt32 × String)}
    (h : program.functionNames = .ok names) {entry : UInt32 × String} (member : entry ∈ names) :
    ∃ number, program.Summed number ∧ entry.1 = UInt32.ofNat number := by
  obtain ⟨synthetic, each, h⟩ := bind_eq_ok.1 h
  obtain ⟨lists, named, rfl⟩ := return_eq_ok.1 h
  -- Neither sorting nor leaving out names changes an index.
  have listed := List.mem_mergeSort.1 ((firstOfKeys_sublist _).subset member)
  rcases List.mem_append.1 listed with supplied | given
  · obtain ⟨place, here⟩ := List.mem_iff_getElem?.1 supplied
    obtain ⟨id, -, one⟩ := exists_item_of_mapM_eq_ok each here
    obtain ⟨symbol, -, one⟩ := bind_eq_ok.1 one
    obtain ⟨number, found, rfl⟩ := return_eq_ok.1 one
    exact ⟨number, .of_granted (.symbolFunction found), rfl⟩
  · obtain ⟨list, among, given⟩ := List.mem_flatten.1 given
    obtain ⟨place, here⟩ := List.mem_iff_getElem?.1 among
    obtain ⟨⟨module, owner⟩, input, made⟩ := exists_item_of_mapM_eq_ok named here
    obtain ⟨place, here⟩ := List.mem_iff_getElem?.1 given
    obtain ⟨⟨index, name⟩, kept, one⟩ := exists_item_of_mapM_eq_ok made here
    obtain ⟨stated, own⟩ := List.mem_filter.1 (List.mem_of_getElem? kept)
    obtain ⟨number, fits, rfl⟩ := return_eq_ok.1 one
    obtain ⟨small, rfl⟩ := inWord_eq_ok.1 fits
    refine ⟨_, ⟨_, .ownFunction
      (List.mk_mem_zipIdx_iff_getElem?.1 (List.mem_of_getElem? input))
      (.inr ⟨name, Array.mem_toList_iff.1 stated⟩) (of_decide_eq_true own), .inr small⟩, rfl⟩

theorem summed_of_operandValue {found : Section} {relocation : Relocation} {current value : Int}
    (input : program.modules[owner]? = some module) (among : found ∈ module.sections)
    (member : relocation ∈ found.relocations) (memory : relocation.kind.isMemoryAddress = false)
    (h : program.operandValue owner relocation current = .ok value) :
    ∃ number : Nat, program.Summed number ∧ value = number := by
  cases demands_of_operandValue h with
  | typeIndex kind =>
    have stated : module.StatesType relocation.index :=
      .inr (.inr ⟨found, among, relocation, member, kind, rfl⟩)
    have small := (typeIndex_of_operandValue kind h).1
    exact ⟨_, ⟨_, .typeIndex input stated, .inr small⟩, rfl⟩
  | functionIndex _ _ here => exact ⟨_, .of_granted (.symbolFunction here), rfl⟩
  | globalIndex _ _ here => exact ⟨_, .of_granted (.symbolGlobal here), rfl⟩
  | memoryAddress kind =>
    rw [memory] at kind
    cases kind
  | tableIndex _ _ _ _ here => exact ⟨_, .of_granted (.slot here), rfl⟩
  | tableNumber => exact ⟨0, .of_granted .first, rfl⟩

theorem addsUp_of_ofInputs (h : ofInputs inputs options = .ok program) : program.AddsUp := by
  obtain ⟨session, -, decided⟩ := decided_of_ofInputs h
  exact {
    typeCount := ⟨_, .typeCount, .inr decided.typesCounted⟩
    typeBase := fun owner =>
      ⟨_, .types owner, .inr (Nat.lt_of_le_of_lt (program.typeBase_le owner) decided.typesCounted)⟩
    codeCount := fun _ _ encoded => ⟨_, .codeCount, .inr (codeCount_lt_of_encode encoded)⟩
    bodies := fun _ _ encoded owner => ⟨_, .bodies owner, .inr (Nat.lt_of_le_of_lt
      (program.bodies_le_codeCount owner) (codeCount_lt_of_encode encoded))⟩
    types := fun _ typed _ => summed_of_functionTypes typed
    imports := fun _ => summed_of_imports decided.imports
    elements := fun _ filled _ => summed_of_tableFunctions filled
    exports := fun _ _ listed _ => summed_of_exports listed
    start := fun _ => summed_of_start
    names := fun _ named _ => summed_of_functionNames named
    operands := fun _ _ _ _ _ _ input among member memory =>
      summed_of_operandValue input among member memory }

end Program

end StaticLink
