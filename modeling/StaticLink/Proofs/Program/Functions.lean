import Mathlib.Data.List.Nodup
import StaticLink.Proofs.Inputs.Sizes
import StaticLink.Proofs.Output.Copies
import StaticLink.Proofs.Program.IndexSpace
import StaticLink.Proofs.Program.Table

/-!
# The functions of the linked module

The linker numbers functions in four places: the imports by their names, its own functions by their
symbols, those of the inputs by a base for each input, and the types of all of them by the entries
of one section. These numbers agree.

* `Program.HasIndex`: the index that the linker gives to a function.
* `Program.outputFunctions`: the functions in their order.
* `Program.Numbered`: each function stands at its index, and no index is left out.
* `link_functions`: the functions of a linked module are numbered, and its section for functions has
  the type of each of them at its place.
-/

namespace StaticLink

/-- A function of the linked module. -/
inductive OutputFunction
  | imported (name : ImportName)
  /-- One that the linker supplies. -/
  | supplied (id : SymbolId)
  /-- The function at `position` among those that input `owner` defines. -/
  | defined (owner : ModuleId) (position : Nat)
deriving DecidableEq, Repr

/-- The function at a place of the index space. -/
def OutputFunction.ofPlace : ImportName ⊕ SymbolId ⊕ ModuleId × Nat → OutputFunction
  | .inl name => .imported name
  | .inr (.inl id) => .supplied id
  | .inr (.inr (owner, position)) => .defined owner position

theorem OutputFunction.ofPlace_injective : Function.Injective OutputFunction.ofPlace := by
  rintro (_ | _ | ⟨_, _⟩) (_ | _ | ⟨_, _⟩) same <;> cases same <;> rfl

/-! ## Positions in lists without repetitions -/

theorem idxOf?_eq_some_iff_of_nodup {α : Type} [BEq α] [LawfulBEq α] {items : List α} {item : α}
    {position : Nat} (nodup : items.Nodup) :
    items.idxOf? item = some position ↔ items[position]? = some item := by
  rw [List.idxOf?_eq_some_iff]
  constructor
  · rintro ⟨small, same, -⟩
    rw [List.getElem?_eq_getElem small, same]
  · intro here
    obtain ⟨small, same⟩ := List.getElem?_eq_some_iff.1 here
    refine ⟨small, same, ?_⟩
    intro earlier before again
    have equal : items[earlier] = items[position] := again.trans same.symm
    exact Nat.ne_of_lt before ((List.Nodup.getElem_inj_iff nodup).1 equal)

theorem positionOfKey?_eq_idxOf? {κ α : Type} [DecidableEq κ] (entries : List (κ × α)) (key : κ) :
    positionOfKey? entries key = (entries.map (·.1)).idxOf? key := by
  rw [positionOfKey?, List.idxOf?, List.findIdx?_map]
  rfl

namespace Program

/-- The index that the linker gives to a function. -/
inductive HasIndex (program : Program) : OutputFunction → Nat → Prop
  | imported {name : ImportName} {index : Nat}
      (found : program.imports.functionIndex? name = some index) :
    HasIndex program (.imported name) index
  | supplied {id : SymbolId} {index : Nat} (listed : id ∈ program.symbols.syntheticFunctions)
      (found : program.functionIndex id = .ok index) :
    HasIndex program (.supplied id) index
  | defined {owner : ModuleId} {position : Nat} {module : ObjectModule}
      (input : program.modules[owner]? = some module)
      (small : position < module.functions.size) :
    HasIndex program (.defined owner position) (program.functionBase owner + position)

/-- The number of the type that a function of the linked module must have. -/
inductive HasType (program : Program) : OutputFunction → Nat → Prop
  /-- A type of its input, whose types come one after the other. -/
  | defined {owner : ModuleId} {position : Nat} {module : ObjectModule} {type : UInt32}
      (input : program.modules[owner]? = some module)
      (here : module.functions[position]? = some type) :
    HasType program (.defined owner position) (program.typeBase owner + type.toNat)
  /-- A stub has the type of the import that it stands in for. -/
  | stub {id : SymbolId} {symbol : Symbol} {owner : ModuleId} {place : UInt32}
      {module : ObjectModule} {found : FunctionImport}
      (stands : program.symbols.get id = .ok symbol)
      (target : symbol.target = .function (.synthesized (.trapStub owner place)))
      (input : program.input owner = .ok module)
      (imports : module.functionImport place = .ok found) :
    HasType program (.supplied id) (program.typeBase owner + found.typeIndex.toNat)
  /-- The caller of the initializers has the first type, which the linker adds for it. -/
  | constructorCaller {id : SymbolId} {symbol : Symbol} {functions : List SymbolId}
      (stands : program.symbols.get id = .ok symbol)
      (target : symbol.target = .function (.synthesized (.constructorCaller functions)))
      (added : program.symbols.callsConstructors = true) :
    HasType program (.supplied id) 0

/-- The functions of the linked module: the imports, then those that the linker supplies, then those
of the inputs, one input after the other. -/
def outputFunctions (program : Program) : List OutputFunction :=
  (program.imports.functions.map (·.1)).map .imported ++
    (program.symbols.syntheticFunctions.map .supplied ++
      (positions (·.functions.size) program.modules).map fun (owner, position) =>
        .defined owner position)

/-- Each function of the linked module stands at the index that the linker gives to it. -/
structure Numbered (program : Program) : Prop where
  index_iff : ∀ function index,
    program.HasIndex function index ↔ program.outputFunctions[index]? = some function
  /-- No function has two indices. -/
  nodup : program.outputFunctions.Nodup
  size : program.outputFunctions.length =
    program.imports.functions.length + program.functionCount
  /-- The indices are those of the linked module, which are words. -/
  small : program.imports.functions.length + program.functionCount < wordLimit
  /-- A symbol that an input defines has the index of its function. -/
  symbol : ∀ id symbol owner place, program.symbols.get id = .ok symbol →
    symbol.target = .function (.defined owner place) →
    program.functionIndex id = .ok (program.functionBase owner + place.toNat) ∧
      program.HasIndex (.defined owner place.toNat) (program.functionBase owner + place.toNat)

variable {inputs : List (String × Bytes)} {options : Options} {program : Program}
  {function : OutputFunction} {index : Nat} {id : SymbolId} {owner : ModuleId}
  {module : ObjectModule}

/-! ## What a program knows of its symbols and imports -/

/-- An import of a function has a type of its input, whose number is a word. -/
theorem exists_of_ofFunction {modules : List ObjectModule} {symbols : SymbolTable} {place : UInt32}
    {entry : ImportName × Nat}
    (h : Imports.ofFunction modules symbols owner place = .ok entry) :
    ∃ module found, inputAt modules owner = .ok module ∧ module.functionImport place = .ok found ∧
      StaticLink.typeBase modules symbols owner + found.typeIndex.toNat < wordLimit ∧
      entry = (found.importName,
        StaticLink.typeBase modules symbols owner + found.typeIndex.toNat) := by
  obtain ⟨module, input, h⟩ := bind_eq_ok.1 h
  obtain ⟨found, here, h⟩ := bind_eq_ok.1 h
  obtain ⟨number, fits, rfl⟩ := return_eq_ok.1 h
  obtain ⟨small, rfl⟩ := inWord_eq_ok.1 fits
  exact ⟨module, found, input, here, small, rfl⟩

/-- The types of the functions that the linker supplies come before those of the inputs, whose
numbers are words. -/
theorem exists_of_functionTypes {types : List Nat} (h : program.functionTypes = .ok types) :
    ∃ synthetic copied,
      program.symbols.syntheticFunctions.mapM program.syntheticFunctionType = .ok synthetic ∧
      copied = (program.modules.zipIdx.flatMap fun (module, owner) =>
        module.functions.toList.map fun type => program.typeBase owner + type.toNat) ∧
      (∀ type ∈ copied, type < wordLimit) ∧ types = synthetic ++ copied := by
  obtain ⟨synthetic, each, h⟩ := bind_eq_ok.1 h
  obtain ⟨copied, fits, rfl⟩ := return_eq_ok.1 h
  obtain ⟨small, rfl⟩ := mapM_inWord_eq_ok.1 fits
  exact ⟨synthetic, _, each, rfl, small, rfl⟩

/-- Imports have different names, and there are no more than strong references. -/
theorem imports_facts (h : Imports.ofSymbols program.modules program.symbols = .ok program.imports) :
    (program.imports.functions.map (·.1)).Nodup ∧
      program.imports.functions.length ≤ program.symbols.strongFunctions.length ∧
      program.imports.globals.length ≤ program.symbols.strongGlobals.length := by
  obtain ⟨functions, each, h⟩ := bind_eq_ok.1 h
  obtain ⟨globals, each', same⟩ := return_eq_ok.1 h
  rw [← same]
  refine ⟨keys_nodup_firstOfKeys functions, ?_, ?_⟩
  · rw [← (mapM_eq_ok each).1]
    exact (firstOfKeys_sublist functions).length_le
  · rw [← (mapM_eq_ok each').1]
    exact (firstOfKeys_sublist globals).length_le

/-- A function that the linker supplies comes after the imports, in the place of its symbol. -/
theorem functionIndex_of_synthetic (wf : program.symbols.WellFormed) {place : Nat}
    (here : program.symbols.syntheticFunctions[place]? = some id) :
    program.functionIndex id = .ok (program.imports.functions.length + place) := by
  have listed : id ∈ program.symbols.synthetic .function := List.mem_of_getElem? here
  obtain ⟨symbol, stands, supplied, kind⟩ := (wf.mem_synthetic .function id).1 listed
  have position : program.symbols.syntheticFunctionIndex? id = some place :=
    (idxOf?_eq_some_iff_of_nodup (wf.synthetic_nodup .function)).2 here
  refine bind_eq_ok.2 ⟨symbol, existing_eq_ok.2 stands, ?_⟩
  -- Of all functions only those that the linker supplies are in the list.
  rcases target : symbol.target with (_ | _ | function) | _ | _
  · rw [target] at supplied
    cases supplied
  · rw [target] at supplied
    cases supplied
  · refine bind_eq_ok.2 ⟨place, ?_, rfl⟩
    rw [position]
    rfl
  · rw [target] at kind
    cases kind
  · rw [target] at kind
    cases kind

/-! ## Numbering -/

theorem outputFunctions_eq_map (program : Program) : program.outputFunctions =
    (indexSpace (·.functions.size) (program.imports.functions.map (·.1))
      program.symbols.syntheticFunctions program.modules).map OutputFunction.ofPlace := by
  unfold outputFunctions indexSpace
  simp only [List.map_append, List.map_map]
  rfl

theorem length_outputFunctions (program : Program) :
    program.outputFunctions.length = program.imports.functions.length + program.functionCount := by
  rw [outputFunctions_eq_map, List.length_map, length_indexSpace, List.length_map]
  rfl

theorem nodup_outputFunctions (wf : program.symbols.WellFormed)
    (imports : (program.imports.functions.map (·.1)).Nodup) : program.outputFunctions.Nodup := by
  rw [outputFunctions_eq_map]
  exact (nodup_indexSpace _ imports (wf.synthetic_nodup .function)).map
    OutputFunction.ofPlace_injective

/-- A function stands at the index that the linker gives to it. -/
theorem getElem?_of_hasIndex (wf : program.symbols.WellFormed)
    (imports : (program.imports.functions.map (·.1)).Nodup)
    (has : program.HasIndex function index) :
    program.outputFunctions[index]? = some function := by
  rw [outputFunctions_eq_map, List.getElem?_map]
  cases has with
  | @imported name index found =>
    rw [Imports.functionIndex?, positionOfKey?_eq_idxOf?, idxOf?_eq_some_iff_of_nodup imports]
      at found
    rw [getElem?_indexSpace_imported _ found]
    rfl
  | @supplied id index listed found =>
    obtain ⟨place, here⟩ := List.mem_iff_getElem?.1 listed
    rw [functionIndex_of_synthetic wf here] at found
    cases found
    rw [← List.length_map (·.1), getElem?_indexSpace_supplied _ here]
    rfl
  | @defined owner position module input small =>
    unfold functionBase syntheticFunctionBase
    rw [← List.length_map (·.1),
      getElem?_indexSpace_position (·.functions.size) input small]
    rfl

/-- The linker gives an index to every function. -/
theorem exists_hasIndex (wf : program.symbols.WellFormed)
    (imports : (program.imports.functions.map (·.1)).Nodup)
    (member : function ∈ program.outputFunctions) : ∃ index, program.HasIndex function index := by
  rw [outputFunctions_eq_map] at member
  obtain ⟨place, within, rfl⟩ := List.mem_map.1 member
  rcases mem_indexSpace _ within with
    ⟨name, listed, rfl⟩ | ⟨id, listed, rfl⟩ | ⟨owner, module, position, input, small, rfl⟩
  · obtain ⟨index, here⟩ := List.mem_iff_getElem?.1 listed
    refine ⟨index, .imported ?_⟩
    rw [Imports.functionIndex?, positionOfKey?_eq_idxOf?, idxOf?_eq_some_iff_of_nodup imports]
    exact here
  · obtain ⟨place, here⟩ := List.mem_iff_getElem?.1 listed
    exact ⟨_, .supplied listed (functionIndex_of_synthetic wf here)⟩
  · exact ⟨_, .defined input small⟩

theorem hasIndex_iff (wf : program.symbols.WellFormed)
    (imports : (program.imports.functions.map (·.1)).Nodup) :
    program.HasIndex function index ↔ program.outputFunctions[index]? = some function :=
  index_iff_of_nodup (nodup_outputFunctions wf imports)
    (fun _ _ => getElem?_of_hasIndex wf imports) fun _ => exists_hasIndex wf imports

/-- Functions come of symbols and of entries in the inputs. -/
theorem functionCount_le (wf : program.symbols.WellFormed)
    (imports : program.imports.functions.length ≤ program.symbols.strongFunctions.length) :
    program.imports.functions.length + program.functionCount ≤
      countAll (·.weight) program.modules + program.symbols.linked := by
  have linked := SymbolTable.strongFunctions_add_synthetic_le wf
  have functions : countAll (·.functions.size) program.modules ≤
      countAll (·.weight) program.modules :=
    countAll_le fun module _ => module.functions_size_le_weight
  unfold SymbolTable.linked functionCount
  omega

/-- Functions are numbered if their number is a word. -/
theorem numbered_of_few (h : ofInputs inputs options = .ok program)
    (few : program.imports.functions.length + program.functionCount < wordLimit) :
    program.Numbered := by
  have sound := sound_of_ofInputs h
  obtain ⟨session, -, decided⟩ := decided_of_ofInputs h
  obtain ⟨names, -⟩ := imports_facts decided.imports
  refine ⟨fun _ _ => hasIndex_iff sound.wellFormed names,
    nodup_outputFunctions sound.wellFormed names, length_outputFunctions program, few, ?_⟩
  intro id symbol owner place stands target
  obtain ⟨module, input, has⟩ := sound.target_within stands owner (by rw [target]; rfl)
  rw [target] at has
  refine ⟨?_, .defined input has⟩
  exact (functionIndex_eq_iff sound input has).2 ⟨symbol, place, stands, target, rfl⟩

theorem numbered_of_ofInputs (h : ofInputs inputs options = .ok program)
    (small : totalSize inputs < wordLimit) : program.Numbered := by
  obtain ⟨session, -, decided⟩ := decided_of_ofInputs h
  obtain ⟨-, few, -⟩ := imports_facts decided.imports
  have count := Nat.le_succ_of_le (functionCount_le (sound_of_ofInputs h).wellFormed few)
  exact numbered_of_few h ((measured_of_ofInputs h).lt_wordLimit small count)

/-! ## Types -/

theorem hasType_of_syntheticFunctionType (wf : program.symbols.WellFormed) {type : Nat}
    (listed : id ∈ program.symbols.syntheticFunctions)
    (h : program.syntheticFunctionType id = .ok type) : program.HasType (.supplied id) type := by
  obtain ⟨symbol, stands, h⟩ := bind_eq_ok.1 h
  obtain ⟨record, here, supplied, kind⟩ := (wf.mem_synthetic .function id).1 listed
  have same : record = symbol := Option.some.inj (here.symm.trans (existing_eq_ok.1 stands))
  subst same
  rcases target : record.target with (_ | _ | (functions | ⟨owner, place⟩)) | _ | _
  · rw [target] at supplied
    cases supplied
  · rw [target] at supplied
    cases supplied
  · rw [target] at h
    cases h
    refine .constructorCaller stands target ?_
    refine List.any_eq_true.2 ⟨id, listed, ?_⟩
    rw [here, Option.any_some, target]
  · rw [target] at h
    obtain ⟨typed, found, rfl⟩ := return_eq_ok.1 h
    obtain ⟨module, entry, input, imports, -, rfl⟩ := exists_of_ofFunction found
    exact .stub stands target input imports
  · rw [target] at kind
    cases kind
  · rw [target] at kind
    cases kind

theorem length_functionTypes {types : List Nat} (h : program.functionTypes = .ok types) :
    types.length = program.functionCount := by
  obtain ⟨synthetic, copied, each, rfl, -, rfl⟩ := exists_of_functionTypes h
  rw [List.length_append, (mapM_eq_ok each).1, functionCount]
  refine congrArg (_ + ·) (length_flatMap_zipIdx (·.functions.size) program.modules ?_)
  intro module owner
  rw [List.length_map, Array.length_toList]

/-- The place of a function of an input behind the imports. -/
theorem functionBase_sub_imports (program : Program) (owner : ModuleId) (i : Nat) :
    program.functionBase owner + i - program.imports.functions.length =
      program.symbols.syntheticFunctions.length +
        (countBefore (·.functions.size) program.modules owner + i) := by
  unfold functionBase syntheticFunctionBase
  omega

/-- The types of functions stand in the order of their indices. -/
theorem hasType_of_functionTypes {types : List Nat} (wf : program.symbols.WellFormed)
    (h : program.functionTypes = .ok types) (has : program.HasIndex function index)
    (behind : program.imports.functions.length ≤ index) :
    ∃ type, types[index - program.imports.functions.length]? = some type ∧
      program.HasType function type := by
  obtain ⟨synthetic, copied, each, rfl, -, rfl⟩ := exists_of_functionTypes h
  obtain ⟨size, each⟩ := mapM_eq_ok each
  cases has with
  | imported found =>
    have before := (List.findIdx?_eq_some_iff_getElem.1 found).1
    omega
  | @supplied id index listed found =>
    obtain ⟨place, here⟩ := List.mem_iff_getElem?.1 listed
    rw [functionIndex_of_synthetic wf here] at found
    cases found
    obtain ⟨type, produced, there⟩ := each place id here
    refine ⟨type, ?_, hasType_of_syntheticFunctionType wf listed produced⟩
    rw [Nat.add_sub_cancel_left,
      List.getElem?_append_left (List.getElem?_eq_some_iff.1 there).1, there]
  | @defined owner position module input small =>
    refine ⟨_, ?_, .defined input (Array.getElem?_eq_getElem small)⟩
    rw [functionBase_sub_imports, ← size, List.getElem?_append_right (Nat.le_add_right _ _), Nat.add_sub_cancel_left,
      getElem?_flatMap_zipIdx (·.functions.size) ?_ input small]
    · simp [small]
    · intro module owner
      rw [List.length_map, Array.length_toList]

/-- The sections for types and functions say the type of each function that the linked module
defines. -/
structure Typed (program : Program) (contents : SectionId → Option Bytes) (types : List Nat) :
    Prop where
  /-- There is one entry for each function, and without functions there is no section. -/
  size : types.length = program.functionCount
  functions : contents .functions = if program.functionCount = 0 then none
    else some (encodeNat program.functionCount ++ types.flatMap encodeNat)
  type : ∀ function index, program.HasIndex function index →
    program.imports.functions.length ≤ index →
    ∃ type, types[index - program.imports.functions.length]? = some type ∧
      program.HasType function type
  /-- The type that the linker adds has no parameters and no results. -/
  first : program.symbols.callsConstructors = true → ∀ bytes, contents .types = some bytes →
    ∃ entries, bytes = encodeNat program.typeCount ++ (emptySignature ++ entries)

theorem Numbered.exists_typed {interface : Interface} {contents : SectionId → Option Bytes}
    {output : Bytes} (numbered : program.Numbered) (wf : program.symbols.WellFormed)
    (written : program.Written interface contents output) :
    ∃ types, program.Typed contents types := by
  have first (added : program.symbols.callsConstructors = true) (bytes : Bytes)
      (here : contents .types = some bytes) :
      ∃ entries, bytes = encodeNat program.typeCount ++ (emptySignature ++ entries) := by
    rcases vectorContents_eq_ok (written.made .types) with ⟨-, none⟩ | ⟨-, _, produced, some⟩
    · rw [here] at none
      cases none
    · obtain ⟨copied, -, rfl⟩ := return_eq_ok.1 produced
      rw [here, if_pos added] at some
      exact ⟨copied, Option.some.inj some⟩
  have count : (UInt32.ofNat program.functionCount).toNat = program.functionCount :=
    UInt32.toNat_ofNat_of_lt' (Nat.lt_of_le_of_lt (Nat.le_add_left _ _) numbered.small)
  rcases vectorContents_eq_ok (written.made .functions) with ⟨zero, none⟩ | ⟨any, _, produced, some⟩
  · have zero : program.functionCount = 0 := by
      rw [← count, zero]
      rfl
    refine ⟨[], zero.symm, ?_, ?_, first⟩
    · rw [none, if_pos zero]
    · intro function index has behind
      have small := (List.getElem?_eq_some_iff.1 ((numbered.index_iff function index).1 has)).1
      rw [numbered.size] at small
      omega
  · obtain ⟨types, typed, rfl⟩ := return_eq_ok.1 produced
    have some' : program.functionCount ≠ 0 := by
      intro zero
      rw [zero] at any
      exact any rfl
    refine ⟨types, length_functionTypes typed, ?_, ?_, first⟩
    · rw [some, if_neg some']
      rfl
    · intro function index has behind
      exact hasType_of_functionTypes wf typed has behind

end Program

/-- The functions of a linked module have all the indices below their number, in the order of the
imports, the functions that the linker supplies and the inputs. The section for functions has the
type of each function at its place behind the imports. -/
theorem link_functions {inputs : List (String × Bytes)} {options : Options} {output : Bytes}
    (linked : link inputs options = .ok output) (small : totalSize inputs < wordLimit) :
    ∃ program interface contents types, Program.ofInputs inputs options = .ok program ∧
      program.Written interface contents output ∧ program.Numbered ∧
      program.Typed contents types := by
  obtain ⟨program, interface, decided, -, written⟩ := exists_written_of_link linked
  have numbered := Program.numbered_of_ofInputs decided small
  have wf := (Program.sound_of_ofInputs decided).wellFormed
  obtain ⟨types, typed⟩ := numbered.exists_typed wf written
  exact ⟨program, interface, _, types, decided, written, numbered, typed⟩

/-- The functions of `pair` are those of its inputs, and the second has the second type. -/
theorem link_pair_functions :
    ∃ (program : Program) (contents : SectionId → Option Bytes) (types : List Nat) (type : Nat),
      program.outputFunctions = [.defined 0 0, .defined 1 0] ∧
      program.HasIndex (.defined 1 0) 1 ∧ program.HasType (.defined 1 0) type ∧
      types[1]? = some type ∧
      contents .functions = some (Program.encodeNat 2 ++ types.flatMap Program.encodeNat) := by
  have linked : link pair {} = .ok linkedPair := by decide +kernel
  have small : totalSize pair < wordLimit := by decide +kernel
  have facts : ((Program.ofInputs pair {}).map fun program =>
      (program.outputFunctions, program.imports.functions, program.functionCount)) =
        .ok ([.defined 0 0, .defined 1 0], [], 2) := by decide +kernel
  obtain ⟨program, _, contents, types, decided, -, numbered, typed⟩ := link_functions linked small
  rw [decided] at facts
  obtain ⟨functions, facts⟩ := Prod.mk.inj (Except.ok.inj facts)
  obtain ⟨imports, count⟩ := Prod.mk.inj facts
  have has : program.HasIndex (.defined 1 0) 1 := by
    rw [numbered.index_iff, functions]
    rfl
  obtain ⟨type, here, is⟩ := typed.type (.defined 1 0) 1 has (by rw [imports]; exact Nat.zero_le 1)
  have section' := typed.functions
  rw [count] at section'
  rw [imports] at here
  exact ⟨program, contents, types, type, functions, has, is, here, section'⟩

end StaticLink
